import EntityQuery.Text.Alphabet

/-!
# Lower case

Lower-casing a text. ASCII names need only `Char.toLower`; function names and default table names may
hold letters of any script, so the full mapping is kept here as a table of runs. Two letters do not
fit a table of single characters: the capital I with a dot becomes two characters, and a capital
sigma becomes `ς` at the end of a word and `σ` elsewhere.
-/

namespace EntityQuery.Text

/-- A run of capital letters: every `step`-th code point from `first` to `last` becomes the code
point `offset` away. -/
structure CaseRun where
  first : Nat
  last : Nat
  step : Nat
  offset : Int
  deriving Repr, DecidableEq

/-- The code point that the run gives to `code`, if the run covers it. -/
def CaseRun.lower? (run : CaseRun) (code : Nat) : Option Nat :=
  if run.first ≤ code && code ≤ run.last && (code - run.first) % run.step == 0 then
    some (Int.toNat (code + run.offset))
  else
    none

/-- Runs that are written one behind the other: how far the first letter is from the last one of the
run before, how far the last letter is from the first, the step and the offset. -/
def CaseRun.read (before : Nat) : List Int → List CaseRun
  | gap :: length :: step :: offset :: rest =>
    let first := before + gap.toNat
    let last := first + length.toNat
    ⟨first, last, step.toNat, offset⟩ :: read last rest
  | _ => []

/-- Capital letters beyond ASCII, other than the capital I with a dot. -/
def caseRuns : List CaseRun :=
  CaseRun.read 0
    [192,22,1,32,2,6,1,32,34,46,2,1,4,4,2,1,3,14,2,1,3,44,2,1,2,0,1,-121,1,4,2,1,4,0,1,210,1,2,2,1,
      2,0,1,206,1,0,1,1,2,1,1,205,1,0,1,1,3,0,1,79,1,0,1,202,1,0,1,203,1,0,1,1,2,0,1,205,1,0,1,207,
      2,0,1,211,1,0,1,209,1,0,1,1,4,0,1,211,1,0,1,213,2,0,1,214,1,4,2,1,2,0,1,218,1,0,1,1,2,0,1,218,
      3,0,1,1,2,0,1,218,1,0,1,1,2,1,1,217,1,2,2,1,2,0,1,219,1,0,1,1,4,0,1,1,8,0,1,2,1,0,1,1,2,0,1,2,
      1,0,1,1,2,0,1,2,1,16,2,1,3,16,2,1,3,0,1,2,1,2,2,1,2,0,1,-97,1,0,1,-56,1,38,2,1,2,0,1,-130,2,
      16,2,1,8,0,1,10795,1,0,1,1,2,0,1,-163,1,0,1,10792,3,0,1,1,2,0,1,-195,1,0,1,69,1,0,1,71,1,8,2,
      1,290,2,2,1,4,0,1,1,9,0,1,116,7,0,1,38,2,2,1,37,2,0,1,64,2,1,1,63,2,16,1,32,2,8,1,32,36,0,1,8,
      9,22,2,1,6,0,1,-60,3,0,1,1,2,0,1,-7,1,0,1,1,3,2,1,-130,1,15,1,80,1,31,1,32,49,32,2,1,10,52,2,
      1,2,0,1,15,1,12,2,1,3,94,2,1,3,37,1,48,2890,37,1,7264,2,0,1,7264,6,0,1,7264,723,79,1,38864,1,
      5,1,8,2196,0,1,1,7,42,1,-3008,3,2,1,-3008,321,148,2,1,10,0,1,-7615,2,94,2,1,10,7,1,-8,9,5,1,
      -8,11,7,1,-8,9,7,1,-8,9,5,1,-8,12,6,2,-8,9,7,1,-8,25,7,1,-8,9,7,1,-8,9,7,1,-8,9,1,1,-8,1,1,1,
      -74,1,0,1,-9,12,3,1,-86,1,0,1,-9,12,1,1,-8,1,1,1,-100,13,1,1,-8,1,1,1,-112,1,0,1,-7,12,1,1,
      -128,1,1,1,-126,1,0,1,-9,298,0,1,-7517,4,0,1,-8383,1,0,1,-8262,7,0,1,28,46,15,1,16,20,0,1,1,
      819,25,1,26,1841,47,1,48,49,0,1,1,2,0,1,-10743,1,0,1,-3814,1,0,1,-10727,3,4,2,1,2,0,1,-10780,
      1,0,1,-10749,1,0,1,-10783,1,0,1,-10782,2,0,1,1,3,0,1,1,9,1,1,-10815,1,98,2,1,9,2,2,1,5,0,1,1,
      31054,44,2,1,20,26,2,1,136,12,2,1,4,60,2,1,11,2,2,1,2,0,1,-35332,1,8,2,1,5,0,1,1,2,0,1,-42280,
      3,2,2,1,4,18,2,1,2,0,1,-42308,1,0,1,-42319,1,0,1,-42315,1,0,1,-42305,1,0,1,-42308,2,0,1,
      -42258,1,0,1,-42282,1,0,1,-42261,1,0,1,928,1,14,2,1,2,0,1,-48,1,0,1,-42307,1,0,1,-35384,1,2,2,
      1,2,0,1,-42343,1,14,2,1,2,0,1,-42561,25,0,1,1,22316,25,1,32,1222,39,1,40,137,35,1,40,157,10,1,
      39,2,14,1,39,2,6,1,39,2,1,1,39,1771,50,1,64,158,21,1,32,2875,31,1,32,21889,31,1,32,65,24,1,27,
      31304,33,1,34]

/-- Runs of cased characters: those with a lower, upper or title case form. -/
def casedRuns : List Nat :=
  [65,26,6,26,47,1,10,1,4,1,5,23,1,31,1,195,1,4,4,208,2,35,7,2,30,5,96,1,42,4,2,2,2,4,1,1,6,1,1,3,1,
    1,1,20,1,83,1,139,8,166,1,38,9,41,2839,38,1,1,5,1,2,43,1,4,672,86,2,6,2178,11,5,43,2,3,64,192,
    64,278,2,6,2,38,2,6,2,8,1,1,1,1,1,1,1,31,2,53,1,7,1,1,3,3,1,7,3,4,2,6,4,13,5,3,1,7,116,1,13,1,
    16,13,101,1,4,1,2,10,1,1,3,5,6,1,1,1,1,1,1,4,1,6,4,1,2,4,5,5,4,1,17,32,3,2,817,52,1814,229,6,4,
    3,2,12,38,1,1,5,1,30994,46,18,30,132,102,3,4,1,77,20,6,1,3,821,43,1,14,6,80,20288,7,12,5,1033,
    26,6,26,1189,80,96,36,4,36,116,11,1,15,1,7,1,2,1,11,1,15,1,7,1,2,451,1,2,3,1,42,1,9,1221,51,13,
    51,93,22,10,22,2842,64,21856,64,32,25,2,25,25900,85,1,71,1,2,2,1,2,2,2,4,1,12,1,1,1,7,1,65,1,4,
    2,8,1,7,1,28,1,4,1,5,1,1,3,7,1,340,2,25,1,25,1,31,1,25,1,31,1,25,1,31,1,25,1,31,1,25,1,8,1844,
    10,1,20,6,6,261,62,2194,68,2028,26,6,26,6,26]

/-- Runs of characters that are looked through when the end of a word is sought. -/
def caseIgnorableRuns : List Nat :=
  [39,1,6,1,11,1,35,1,1,1,71,1,4,1,1,1,4,1,2,2,503,192,4,2,4,1,9,2,1,1,251,7,207,1,5,1,49,45,1,1,1,
    2,1,2,1,1,44,1,11,6,10,11,1,1,35,1,10,21,16,1,101,8,1,10,1,4,33,1,1,1,30,27,91,11,58,11,4,1,2,1,
    24,24,43,3,44,1,7,2,5,9,41,58,55,1,1,1,4,8,4,1,3,7,10,2,13,1,15,1,58,1,4,4,8,1,20,2,26,1,2,2,57,
    1,4,2,4,2,2,3,3,1,30,2,3,1,11,2,57,1,4,5,1,2,4,1,20,2,22,6,1,1,58,1,2,1,1,4,8,1,7,2,11,2,30,1,
    61,1,12,1,50,1,3,1,55,1,1,3,5,3,1,4,7,2,11,2,29,1,58,1,2,1,6,1,5,2,20,2,28,2,57,2,4,4,8,1,20,2,
    29,1,72,1,7,3,1,1,90,1,2,7,11,9,98,1,2,9,9,1,1,7,73,2,27,1,1,1,1,1,55,14,1,5,1,2,5,11,1,36,9,1,
    102,4,1,6,1,2,2,2,25,2,4,3,16,4,13,1,2,2,6,1,15,1,94,1,608,3,946,3,29,2,30,2,30,2,64,2,1,7,8,1,
    2,11,3,1,5,1,45,5,51,1,65,2,34,1,118,3,4,2,9,1,6,3,219,2,2,1,58,1,1,7,1,1,1,1,2,8,6,10,2,1,39,1,
    8,46,2,12,20,4,48,1,1,5,1,1,5,1,40,9,12,2,32,4,2,2,1,3,56,1,1,2,3,1,1,3,58,8,2,2,64,6,82,3,1,13,
    1,7,4,1,6,1,3,2,50,63,13,1,34,101,445,1,1,3,11,3,13,3,13,3,13,2,12,5,8,2,10,1,2,1,2,5,49,5,1,10,
    1,1,13,1,16,13,51,33,2955,2,113,3,125,1,15,1,96,32,47,1,469,1,36,4,3,5,5,1,93,6,93,3,28438,1,
    1250,6,270,1,98,4,1,10,1,1,28,4,80,2,14,34,78,1,23,3,102,4,3,2,8,1,3,1,4,1,25,2,5,1,151,2,26,18,
    13,1,38,8,25,11,46,3,48,1,2,4,2,2,17,1,21,2,66,6,2,2,2,2,12,1,8,1,35,1,11,1,51,1,1,3,2,2,5,2,1,
    1,27,1,14,2,5,2,1,1,100,5,9,3,121,1,2,1,4,1,20272,1,147,17,573,16,3,1,12,16,34,1,2,1,169,1,7,1,
    6,1,11,1,35,1,1,1,47,1,45,2,67,1,21,3,513,1,226,1,149,5,1029,6,1,42,1,9,582,3,1,2,5,4,40,3,4,1,
    165,2,573,4,38,1,26,5,1,1,315,2,24,1,52,6,70,11,49,4,123,1,54,15,41,1,2,2,10,3,49,4,2,2,2,1,4,1,
    10,1,50,3,36,5,1,8,62,1,12,2,52,9,10,4,2,1,95,3,2,1,1,2,6,1,2,1,157,1,3,8,21,2,57,2,3,1,37,7,3,
    5,70,6,13,1,1,1,1,1,14,2,85,8,2,3,1,1,23,1,84,6,1,1,4,2,1,2,238,4,6,2,1,2,27,2,85,8,2,1,1,2,106,
    1,1,1,2,6,1,1,101,1,1,1,2,4,1,5,259,9,1,2,256,2,1,1,4,1,144,4,2,2,4,1,32,10,40,6,2,4,8,1,9,6,2,
    3,46,13,1,2,198,1,1,3,1,1,201,7,1,6,1,1,82,22,2,7,1,2,1,2,122,6,3,1,1,2,1,7,1,1,72,2,3,1,1,1,65,
    1,281,2,11,2,52,5,5,1,1,1,23,1,5333,17,6,15,11464,12,3,3,2496,5,59,7,9,4,508,3,40,2,482,1,63,17,
    64,2,1,2,13,2,16380,4,1,7,1,2,3230,2,1,4,4700,46,2,23,544,3,9,16,2,7,30,4,148,3,1979,55,4,50,8,
    1,14,1,22,5,1,15,1360,7,1,17,2,7,1,2,1,5,5,62,33,1,160,14,368,1,61,4,507,5,254,2,243,1,2,1,7,2,
    5,1,9,1,464,7,109,8,2735,5,789505,1,30,96,128,240]

/-- The lower case form of one character, without regard to its neighbours. -/
def lowerChar (c : Char) : List Char :=
  if c.toNat < 0x80 then [c.toLower]
  else if c == 'İ' then ['i', '\u0307']
  else
    match caseRuns.findSome? fun run => run.lower? c.toNat with
    | some code => [Char.ofNat code]
    | none => [c]

/-- Whether the first character that is not case-ignorable is cased. -/
def meetsCased (text : List Char) : Bool :=
  match text.dropWhile fun c => inRuns caseIgnorableRuns c.toNat with
  | c :: _ => inRuns casedRuns c.toNat
  | [] => false

/-- A capital sigma ends a word when a cased character comes before it and none after it. -/
def lowerSigma (before after : List Char) : Char :=
  if meetsCased before && !meetsCased after then 'ς' else 'σ'

/-- Lower case of `text`, the characters before it being given nearest first. -/
def lowerAfter (before : List Char) : List Char → List Char
  | [] => []
  | c :: rest =>
    (if c == 'Σ' then [lowerSigma before rest] else lowerChar c) ++ lowerAfter (c :: before) rest

def lowercase (text : String) : String :=
  String.ofList (lowerAfter [] text.toList)

def lowerAscii (text : String) : String :=
  String.ofList (text.toList.map Char.toLower)

end EntityQuery.Text

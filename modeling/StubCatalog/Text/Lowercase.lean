import StubCatalog.Text.Range

/-! # Lower case

Every capital has one lower-case character, except that the dotted capital I becomes two characters
and a capital sigma depends on its place. -/

namespace StubCatalog.Text

/-- Runs of capitals outside ASCII: the step between capitals, the distance to the lower-case form,
and the runs. -/
def capitalRuns : List (Nat × Int × Array (Nat × Nat)) :=
  [(1,32,[192,23,1,7,690,17,1,9,100,32,64241,26,6501,32,21888,32]),(2,1,[256,47,3,5,2,15,2,45,2,5,4,
     3,2,1,3,1,5,1,6,1,7,5,2,1,4,1,2,1,3,3,2,1,3,1,8,1,2,1,2,17,2,17,3,3,3,39,3,17,8,1,5,1,4,9,289,
     3,3,1,97,23,8,1,2,1,101,33,9,53,2,13,2,95,6353,149,11,95,644,1,2780,1,6,5,6,1,2,1,10,99,8,3,4,
     1,31053,45,19,27,135,13,3,61,10,3,2,9,4,1,4,3,3,19,11,15,4,3,6,1,5,3,28,1]),(1,-121,[376,1]),
   (1,210,[385,1]),(1,206,[390,1]),(1,205,[393,2,8,1]),(1,79,[398,1]),(1,202,[399,1]),
   (1,203,[400,1]),(1,207,[404,1]),(1,211,[406,1,5,1]),(1,209,[407,1]),(1,213,[413,1]),
   (1,214,[415,1]),(1,218,[422,1,2,1,4,1]),(1,217,[433,2]),(1,219,[439,1]),
   (1,2,[452,1,2,1,2,1,38,1]),(1,-97,[502,1]),(1,-56,[503,1]),(1,-130,[544,1,476,3]),
   (1,10795,[570,1]),(1,-163,[573,1]),(1,10792,[574,1]),(1,-195,[579,1]),(1,69,[580,1]),
   (1,71,[581,1]),(1,116,[895,1]),(1,38,[902,1]),(1,37,[904,3]),(1,64,[908,1,67827,51]),
   (1,63,[910,2]),(1,8,[975,1,4128,6]),(1,-60,[1012,1]),(1,-7,[1017,1,7154,1]),(1,80,[1024,16]),
   (1,15,[1216,1]),(1,48,[1329,38,9897,48]),(1,7264,[4256,38,1,1,5,1]),(1,38864,[5024,80]),
   (1,-3008,[7312,43,2,3]),(1,-7615,[7838,1]),
   (1,-8,[7944,8,8,6,10,8,8,8,8,6,26,8,24,8,8,8,8,8,8,2,30,2,14,2]),(2,-8,[8025,7]),
   (1,-74,[8122,2]),(1,-9,[8124,1,15,1,47,1]),(1,-86,[8136,4]),(1,-100,[8154,2]),(1,-112,[8170,2]),
   (1,-128,[8184,2]),(1,-126,[8186,2]),(1,-7517,[8486,1]),(1,-8383,[8490,1]),(1,-8262,[8491,1]),
   (1,28,[8498,1]),(1,16,[8544,16]),(1,26,[9398,26]),(1,-10743,[11362,1]),(1,-3814,[11363,1]),
   (1,-10727,[11364,1]),(1,-10780,[11373,1]),(1,-10749,[11374,1]),(1,-10783,[11375,1]),
   (1,-10782,[11376,1]),(1,-10815,[11390,2]),(1,-35332,[42877,1]),(1,-42280,[42893,1]),
   (1,-42308,[42922,1,3,1]),(1,-42319,[42923,1]),(1,-42315,[42924,1]),(1,-42305,[42925,1]),
   (1,-42258,[42928,1]),(1,-42282,[42929,1]),(1,-42261,[42930,1]),(1,928,[42931,1]),
   (1,-48,[42948,1]),(1,-42307,[42949,1]),(1,-35384,[42950,1]),(1,40,[66560,40,136,36]),
   (1,39,[66928,11,1,15,1,7,1,2]),(1,34,[125184,34])].map
    fun (step, distance, table) => (step, distance, rangesOf table)

/-- The characters with case that are not ignored at the end of a word. -/
def casedRanges : Array (Nat × Nat) := rangesOf
  [65,26,6,26,47,1,10,1,4,1,5,23,1,31,1,195,1,4,4,208,1,27,192,4,2,2,3,3,1,1,6,1,1,3,1,1,1,20,1,83,
   1,139,8,166,1,38,9,41,2839,38,1,1,5,1,2,43,2,3,672,86,2,6,2178,9,7,43,2,3,64,44,63,13,1,34,101,
   278,2,6,2,38,2,6,2,8,1,1,1,1,1,1,1,31,2,53,1,7,1,1,3,3,1,7,3,4,2,6,4,13,5,3,1,7,261,1,4,1,2,10,1,
   1,3,5,6,1,1,1,1,1,1,4,1,6,4,1,2,4,5,5,4,1,17,32,3,2,817,52,1814,124,2,103,6,4,3,2,12,38,1,1,5,1,
   30994,46,18,28,134,78,1,23,3,4,1,59,5,2,1,1,1,5,27,2,3,1,821,43,5,9,7,80,20288,7,12,5,1033,26,6,
   26,1189,80,96,36,4,36,116,11,1,15,1,7,1,2,1,11,1,15,1,7,1,2,1731,51,13,51,2989,64,21856,64,25984,
   85,1,71,1,2,2,1,2,2,2,4,1,12,1,1,1,7,1,65,1,4,2,8,1,7,1,28,1,4,1,5,1,1,3,7,1,340,2,25,1,25,1,31,
   1,25,1,31,1,25,1,31,1,25,1,31,1,25,1,8,1844,10,1,20,2529,68,2028,26,6,26,6,26]

/-- The characters that are skipped when looking for a neighbour with case. -/
def caseIgnorableRanges : Array (Nat × Nat) := rangesOf
  [39,1,6,1,11,1,35,1,1,1,71,1,4,1,1,1,4,1,2,2,503,192,4,2,4,1,9,2,1,1,251,7,207,1,5,1,49,45,1,1,1,
   2,1,2,1,1,44,1,11,6,10,11,1,1,35,1,10,21,16,1,101,8,1,10,1,4,33,1,1,1,30,27,91,11,58,11,4,1,2,1,
   24,24,43,3,44,1,7,2,6,8,41,58,55,1,1,1,4,8,4,1,3,7,10,2,13,1,15,1,58,1,4,4,8,1,20,2,26,1,2,2,57,
   1,4,2,4,2,2,3,3,1,30,2,3,1,11,2,57,1,4,5,1,2,4,1,20,2,22,6,1,1,58,1,2,1,1,4,8,1,7,2,11,2,30,1,61,
   1,12,1,50,1,3,1,55,1,1,3,5,3,1,4,7,2,11,2,29,1,58,1,2,1,6,1,5,2,20,2,28,2,57,2,4,4,8,1,20,2,29,1,
   72,1,7,3,1,1,90,1,2,7,11,9,98,1,2,9,9,1,1,6,74,2,27,1,1,1,1,1,55,14,1,5,1,2,5,11,1,36,9,1,102,4,
   1,6,1,2,2,2,25,2,4,3,16,4,13,1,2,2,6,1,15,1,94,1,608,3,946,3,29,2,30,2,30,2,64,2,1,7,8,1,2,11,3,
   1,5,1,45,5,51,1,65,2,34,1,118,3,4,2,9,1,6,3,219,2,2,1,58,1,1,7,1,1,1,1,2,8,6,10,2,1,39,1,8,31,49,
   4,48,1,1,5,1,1,5,1,40,9,12,2,32,4,2,2,1,3,56,1,1,2,3,1,1,3,58,8,2,2,64,6,82,3,1,13,1,7,4,1,6,1,3,
   2,50,63,13,1,34,101,445,1,1,3,11,3,13,3,13,3,13,2,12,5,8,2,10,1,2,1,2,5,49,5,1,10,1,1,13,1,16,13,
   51,33,2955,2,113,3,125,1,15,1,96,32,47,1,469,1,36,4,3,5,5,1,93,6,93,3,28438,1,1250,6,270,1,98,4,
   1,10,1,1,28,4,80,2,14,34,78,1,23,3,103,3,3,2,8,1,3,1,4,1,25,2,5,1,151,2,26,18,13,1,38,8,25,11,46,
   3,48,1,2,4,2,2,17,1,21,2,66,6,2,2,2,2,12,1,8,1,35,1,11,1,51,1,1,3,2,2,5,2,1,1,27,1,14,2,5,2,1,1,
   100,5,9,3,121,1,2,1,4,1,20272,1,147,17,573,16,3,1,12,16,34,1,2,1,169,1,7,1,6,1,11,1,35,1,1,1,47,
   1,45,2,67,1,21,3,513,1,226,1,149,5,1029,6,1,42,1,9,582,3,1,2,5,4,40,3,4,1,165,2,573,4,387,2,153,
   11,49,4,123,1,54,15,41,1,2,2,10,3,49,4,2,2,2,1,4,1,10,1,50,3,36,5,1,8,62,1,12,2,52,9,10,4,2,1,95,
   3,2,1,1,2,6,1,160,1,3,8,21,2,57,2,3,1,37,7,3,5,195,8,2,3,1,1,23,1,84,6,1,1,4,2,1,2,238,4,6,2,1,2,
   27,2,85,8,2,1,1,2,106,1,1,1,2,6,1,1,101,3,2,4,1,5,259,9,1,2,256,2,1,1,4,1,144,4,2,2,4,1,32,10,40,
   6,2,4,8,1,9,6,2,3,46,13,1,2,406,7,1,6,1,1,82,22,2,7,1,2,1,2,122,6,3,1,1,2,1,7,1,1,72,2,3,1,1,1,
   347,2,5435,9,14007,5,59,7,9,4,1035,1,63,17,64,2,1,2,16395,4,1,7,1,2,3230,2,1,4,4700,46,2,23,544,
   3,9,16,2,7,30,4,148,3,1979,55,4,50,8,1,14,1,22,5,1,15,1360,7,1,17,2,7,1,2,1,5,261,14,368,1,61,4,
   1504,7,109,8,2735,5,789505,1,30,96,128,240]

def lowerChar (c : Char) : Char :=
  let n := c.toNat
  if n < 128 then c.toLower
  else match capitalRuns.find? fun (step, _, runs) =>
      runs.any fun run => run.1 ≤ n && n ≤ run.2 && (n - run.1) % step == 0 with
    | some (_, distance, _) => Char.ofNat (n + distance).toNat
    | none => c

/-- The nearest character that is not skipped has case. -/
def nearCased (cs : List Char) : Bool :=
  match cs.dropWhile fun c => inRanges caseIgnorableRanges c.toNat with
  | [] => false
  | c :: _ => inRanges casedRanges c.toNat

/-- The capital sigma, whose lower-case form depends on its place. -/
def capitalSigma : Char := Char.ofNat 0x3A3

def dottedCapitalI : Char := Char.ofNat 0x130

/-- Lower case of a text, given the reversed text before it. -/
def lowerFrom (before : List Char) : List Char → List Char
  | [] => []
  | c :: rest =>
    let lowered :=
      if c == capitalSigma then
        [Char.ofNat (if nearCased before && !nearCased rest then 0x3C2 else 0x3C3)]
      else if c == dottedCapitalI then ['i', Char.ofNat 0x307]
      else [lowerChar c]
    lowered ++ lowerFrom (c :: before) rest

def lower (s : String) : String := String.ofList (lowerFrom [] s.toList)

/-- A letter without regard to case: the dotted and the dotless i count as i, the long s as s. -/
def foldLetter (c : Char) : Char :=
  let n := c.toNat
  if n == 0x130 || n == 0x131 then 'i' else if n == 0x17F then 's' else lowerChar c

/-- The text starts with a word in lower case, without regard to case; the characters that stand for
the word, and the rest behind them. -/
def takeFolded? (word cs : List Char) : Option (List Char × List Char) :=
  if (cs.take word.length).map foldLetter == word then
    some (cs.take word.length, cs.drop word.length)
  else none

end StubCatalog.Text

import StubCatalog.Terminal.Width

/-! # Characters that are shown as one

A text is cut between clusters only: a character with the marks, joined characters and picture
selectors behind it. -/

namespace StubCatalog.Terminal

structure Cluster where
  chars : List Char
  width : Nat
  deriving DecidableEq, Repr

/-- A cluster under way, given in reverse; nothing for no characters. -/
def closedCluster (cluster : List Char) (width : Nat) : List Cluster :=
  if cluster.isEmpty then [] else [⟨cluster.reverse, width⟩]

/-- The clusters of a text. The cluster under way is given in reverse, with its columns; `sign` and
`joined` are as for `widthFrom`. -/
def clustersFrom (cluster : List Char) (width : Nat) (sign : Option Char) (joined : Bool) :
    List Char → List Cluster
  | [] => closedCluster cluster width
  | c :: cs =>
    if joined then clustersFrom (c :: cluster) width sign false cs
    else if c = joiner then clustersFrom (c :: cluster) width sign (!cluster.isEmpty) cs
    else if c = pictureSelector && sign.any isPictorial then
      clustersFrom (c :: cluster) (width + 1) none false cs
    else if c = pictureSelector || charWidth c = 0 then
      clustersFrom (c :: cluster) width sign false cs
    else closedCluster cluster width ++ clustersFrom [c] (charWidth c) (some c) false cs

def clusters (cs : List Char) : List Cluster := clustersFrom [] 0 none false cs

end StubCatalog.Terminal

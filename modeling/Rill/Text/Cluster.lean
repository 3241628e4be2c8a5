import Rill.Text.ClusterClass

/-!
# Clusters

A text is cut into clusters, each of which is one character to its reader. Whether a cluster goes on
with the next character depends on the class of that character and on what is before it; `ClusterContext`
keeps all that has to be known of the latter.

* `clusters` cuts a text, and `flatten_clusters` says that nothing is lost.
-/

namespace Rill.Text

/-- What is known of the characters before a place. -/
structure ClusterContext where
  /-- The class of the last. -/
  last : ClusterClass
  /-- Whether an odd number of flag halves comes last. -/
  halfFlag : Bool
  /-- Whether a pictograph comes last, but for characters that extend it. -/
  pictograph : Bool
  /-- Whether a pictograph comes last, but for characters that extend it and one joiner. -/
  joined : Bool
  /-- Whether a consonant comes last, but for characters that may stand between two. -/
  consonant : Bool
  /-- Whether a linker is among those. -/
  linked : Bool
  deriving DecidableEq, Repr

namespace ClusterContext

/-- What is known of one character by itself. -/
def ofChar (c : Char) : ClusterContext :=
  let k := clusterClass c
  ⟨k, k = .regional, k = .pictograph, false, k = .consonant, false⟩

/-- What is known after one more character. -/
def push (x : ClusterContext) (c : Char) : ClusterContext :=
  let k := clusterClass c
  { last := k
    halfFlag := k = .regional && !x.halfFlag
    pictograph := k = .pictograph || (k = .extend && x.pictograph)
    joined := k = .joiner && x.pictograph
    consonant := k = .consonant || (isBetweenConsonants c && x.consonant)
    linked := isBetweenConsonants c && x.consonant && (x.linked || isLinker c) }

/-- Whether a class never has anything of its cluster beside it. -/
def standsAlone (k : ClusterClass) : Bool :=
  k = .control || k = .carriageReturn || k = .lineFeed

/-- Whether the parts of a syllable go together. -/
def sameSyllable : ClusterClass → ClusterClass → Bool
  | .leading, .leading | .leading, .vowel | .leading, .openSyllable | .leading, .closedSyllable =>
    true
  | .openSyllable, .vowel | .openSyllable, .trailing | .vowel, .vowel | .vowel, .trailing => true
  | .closedSyllable, .trailing | .trailing, .trailing => true
  | _, _ => false

/-- Whether the cluster goes on with a character of a class. -/
def continues (x : ClusterContext) (next : ClusterClass) : Bool :=
  if x.last = .carriageReturn && next = .lineFeed then true
  else if standsAlone x.last || standsAlone next then false
  else
    sameSyllable x.last next || next = .extend || next = .joiner || next = .spacing ||
      x.last = .prepended || (next = .consonant && x.linked) ||
      (next = .pictograph && x.joined) || (next = .regional && x.halfFlag)

end ClusterContext

/-- The clusters of some characters after those of an open cluster, which is given backwards. -/
def clustersFrom (x : ClusterContext) (backwards : List Char) : List Char → List (List Char)
  | [] => [backwards.reverse]
  | c :: cs =>
    if x.continues (clusterClass c) then clustersFrom (x.push c) (c :: backwards) cs
    else backwards.reverse :: clustersFrom (x.push c) [c] cs

/-- The clusters of a text. -/
def clusters : List Char → List (List Char)
  | [] => []
  | c :: cs => clustersFrom (.ofChar c) [c] cs

theorem flatten_clustersFrom (x : ClusterContext) (backwards cs : List Char) :
    (clustersFrom x backwards cs).flatten = backwards.reverse ++ cs := by
  induction cs generalizing x backwards with
  | nil => simp [clustersFrom]
  | cons c cs ih =>
    rw [clustersFrom]
    split <;> simp [ih]

/-- Cutting a text into clusters loses nothing. -/
theorem flatten_clusters (cs : List Char) : (clusters cs).flatten = cs := by
  cases cs with
  | nil => rfl
  | cons c cs => simp [clusters, flatten_clustersFrom]

end Rill.Text

import BoxScript.Text.ClusterClass

/-!
# Clusters

A text is cut into clusters from left to right. Whether the next character still belongs to the
cluster before it hangs on the class of both, and on three things about the cluster: whether it
ends in half a flag, in a pictograph that a joiner waits to connect, or in a consonant that a
linker waits to connect. `ClusterEnd` keeps these; `flatten_clusters` says that cutting loses
nothing.
-/

namespace BoxScript.Text

/-- How far something that needs two sides has come: nothing yet, the first side, or the first
side and what connects it to the second. -/
inductive Bond where
  | none | first | connected
  deriving DecidableEq, Repr

/-- The end of a cluster, as far as it matters for the character after it. -/
structure ClusterEnd where
  last : ClusterClass
  /-- The cluster ends in an odd number of regional letters. -/
  halfFlag : Bool
  /-- A pictograph with its marks, and then a joiner. -/
  picture : Bond
  /-- A consonant with its marks, a linker among them. -/
  conjunct : Bond
  deriving DecidableEq, Repr

namespace ClusterEnd

/-- The end of a cluster that has no characters yet. -/
def empty : ClusterEnd := ⟨.other, false, .none, .none⟩

/-- The picture bond after a character of a class. -/
def nextPicture : Bond → ClusterClass → Bond
  | _, .pictograph => .first
  | .first, .extend => .first
  | .first, .joiner => .connected
  | _, _ => .none

/-- The conjunct bond after a character of a class. A zero-width non-joiner ends it. -/
def nextConjunct (b : Bond) (c : Char) (k : ClusterClass) : Bond :=
  if k = .consonant then .first
  else if isLinker c then (if b = .none then .none else .connected)
  else if (k = .extend || k = .joiner) && c ≠ '\u200c' then b
  else .none

/-- The end of the cluster with one more character, which is of class `k`. -/
def push (e : ClusterEnd) (c : Char) (k : ClusterClass) : ClusterEnd where
  last := k
  halfFlag := k = .regional && !e.halfFlag
  picture := nextPicture e.picture k
  conjunct := nextConjunct e.conjunct c k

/-- Whether a character of a class belongs to the cluster before it. -/
def joins (e : ClusterEnd) (k : ClusterClass) : Bool :=
  match e.last, k with
  | .carriageReturn, .lineFeed => true
  | .carriageReturn, _ | .lineFeed, _ | .control, _ => false
  | _, .carriageReturn | _, .lineFeed | _, .control => false
  | .leading, .leading | .leading, .vowel | .leading, .openSyllable
  | .leading, .closedSyllable => true
  | .openSyllable, .vowel | .openSyllable, .trailing => true
  | .vowel, .vowel | .vowel, .trailing => true
  | .closedSyllable, .trailing | .trailing, .trailing => true
  | _, .extend | _, .joiner | _, .spacing => true
  | .prepend, _ => true
  | _, .consonant => e.conjunct = .connected
  | .joiner, .pictograph => e.picture = .connected
  | .regional, .regional => e.halfFlag
  | _, _ => false

end ClusterEnd

/-- Cut a text into clusters. The clusters found so far and the one being read, whose end is `e`,
are kept in reverse. -/
def clustersFrom (found : List (List Char)) (e : ClusterEnd) (cluster : List Char) :
    List Char → List (List Char)
  | [] => (cluster.reverse :: found).reverse
  | c :: cs =>
    let k := clusterClass c
    if e.joins k then clustersFrom found (e.push c k) (c :: cluster) cs
    else clustersFrom (cluster.reverse :: found) (ClusterEnd.empty.push c k) [c] cs

/-- The clusters of a text. -/
def clusters : List Char → List (List Char)
  | [] => []
  | c :: cs => clustersFrom [] (ClusterEnd.empty.push c (clusterClass c)) [c] cs

theorem flatten_clustersFrom (found : List (List Char)) (e : ClusterEnd) (cluster cs : List Char) :
    (clustersFrom found e cluster cs).flatten = found.reverse.flatten ++ cluster.reverse ++ cs := by
  induction cs generalizing found e cluster with
  | nil => simp [clustersFrom]
  | cons c cs ih =>
    unfold clustersFrom
    simp only
    split
    · rw [ih]; simp
    · rw [ih]; simp

/-- The clusters of a text in a row are the text. -/
theorem flatten_clusters (cs : List Char) : (clusters cs).flatten = cs := by
  cases cs with
  | nil => rfl
  | cons c cs => rw [clusters, flatten_clustersFrom]; simp

end BoxScript.Text

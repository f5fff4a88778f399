import Polyrhythm.Node
import Polyrhythm.Traversal

/-!
# Commas and periods

A comma makes the parts of a level sound together, a period makes them segments of one length. A
level without the separator is left alone; otherwise its parts are read one by one and become the
content of a single element. Parts without elements (`chunks` drops them) leave no trace.
-/

namespace Polyrhythm

/-- The non-empty parts between the separators of a level, the current part being collected latest
first. -/
def chunksFrom (separator : String) : List Node → List Node → List (List Node)
  | current, [] => if current.isEmpty then [] else [current.reverse]
  | current, n :: rest =>
    if n.isSymbol separator then
      let more := chunksFrom separator [] rest
      if current.isEmpty then more else current.reverse :: more
    else chunksFrom separator (n :: current) rest

/-- The non-empty parts between the separators of a level. -/
def chunks (separator : String) (nodes : List Node) : List (List Node) :=
  chunksFrom separator [] nodes

/-- Makes one element of a level that has the separator, its parts being read by `readPart`. -/
def splitAt (separator : String) (join : List Node → Node)
    (readPart : List Node → Except Fault Node) (nodes : List Node) : Except Fault (List Node) :=
  if nodes.any (Node.isSymbol separator) then do
    let parts ← (chunks separator nodes).mapM readPart
    return [join parts]
  else .ok nodes

/-- Makes a simul of a level with commas. -/
def splitCommas (readPart : List Node → Except Fault Node) (nodes : List Node) :
    Except Fault (List Node) :=
  splitAt "," (fun parts => .simul parts none) readPart nodes

/-- Makes a sequence of a level with periods. -/
def splitPeriods (readPart : List Node → Except Fault Node) (nodes : List Node) :
    Except Fault (List Node) :=
  splitAt "." .sequence readPart nodes

/-! ## Sizes -/

/-- A part between separators is at most as long as what was collected and left, and shorter if a
separator is left. -/
theorem length_le_of_mem_chunksFrom {separator : String} {current nodes chunk : List Node}
    (h : chunk ∈ chunksFrom separator current nodes) :
    chunk.length + (if nodes.any (Node.isSymbol separator) then 1 else 0) ≤
      current.length + nodes.length := by
  induction nodes generalizing current with
  | nil =>
    rw [chunksFrom] at h
    split at h
    · cases h
    · simp only [List.mem_singleton] at h
      simp [h]
  | cons n rest ih =>
    rw [chunksFrom] at h
    by_cases hn : n.isSymbol separator = true
    · simp only [hn, ↓reduceIte] at h
      have hcases : chunk = current.reverse ∨ chunk ∈ chunksFrom separator [] rest := by
        split at h
        · exact .inr h
        · exact List.mem_cons.1 h
      rcases hcases with rfl | hmem
      · simp [hn]
      · have := ih hmem
        simp only [List.length_nil] at this
        simp only [List.any_cons, hn, Bool.true_or, ↓reduceIte, List.length_cons]
        omega
    · simp only [hn, Bool.false_eq_true, ↓reduceIte] at h
      have := ih h
      simp only [List.length_cons] at this ⊢
      simp only [List.any_cons, hn, Bool.false_or]
      omega

/-- Two readers that agree on all lists shorter than a level split it in the same way. -/
theorem splitAt_congr {separator : String} {join : List Node → Node}
    {read read' : List Node → Except Fault Node} {nodes : List Node}
    (h : ∀ ns : List Node, ns.length < nodes.length → read ns = read' ns) :
    splitAt separator join read nodes = splitAt separator join read' nodes := by
  rw [splitAt, splitAt]
  split
  · next hsep =>
    have hchunks : ∀ chunk ∈ chunks separator nodes, read chunk = read' chunk := by
      intro chunk hchunk
      have := length_le_of_mem_chunksFrom hchunk
      rw [if_pos hsep, List.length_nil] at this
      exact h chunk (by omega)
    rw [Traversal.mapM_congr hchunks]
  · rfl

/-- Splitting leaves one element, or the level as it was. -/
theorem splitAt_eq_ok {separator : String} {join : List Node → Node}
    {read : List Node → Except Fault Node} {nodes nodes' : List Node}
    (h : splitAt separator join read nodes = .ok nodes') :
    (∃ parts, nodes' = [join parts]) ∨ nodes' = nodes := by
  rw [splitAt] at h
  split at h
  · obtain ⟨parts, -, h⟩ := Traversal.bind_eq_ok.1 h
    cases h
    exact .inl ⟨parts, rfl⟩
  · cases h
    exact .inr rfl

end Polyrhythm

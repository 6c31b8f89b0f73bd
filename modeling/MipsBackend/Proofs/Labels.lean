import MipsBackend.Proofs.Reading

/-! Labels of blocks. Code is cut before every label, so the labels of a function are those of its
blocks, and a jump leads to the block that carries its target. -/
namespace MipsBackend

/-- The labels of the code, in order. -/
def FunctionDef.labels (f : FunctionDef) : List String := f.code.filterMap Instruction.label

/-- Of the instructions of a block only the first can have a label. -/
lemma label_of_mem_cut {code b : List Instruction} (hb : b ∈ cut code) :
    ∀ i ∈ b.tail, i.label = none := by
  induction code generalizing b with
  | nil => simp [cut] at hb
  | cons j code ih =>
    rw [cut] at hb
    cases hc : cut code with
    | nil =>
      obtain rfl : b = [j] := by simpa [hc] using hb
      simp
    | cons c cs =>
      simp only [hc] at hb
      split at hb
      · rcases List.mem_cons.mp hb with rfl | hb
        · simp
        · exact ih (by rwa [hc])
      · next hbound =>
        rcases List.mem_cons.mp hb with rfl | hb
        · -- the block grows to the left: its old head becomes part of the tail
          have hmem : c ∈ cut code := by simp [hc]
          intro i hi
          cases c with
          | nil => simp at hi
          | cons k c =>
            rcases List.mem_cons.mp hi with rfl | hi
            · simp only [isBoundary, Bool.or_eq_true, not_or] at hbound
              simpa using hbound.2
            · exact ih hmem i hi
        · exact ih (by simp [hc, hb])

lemma filterMap_label_of_mem_cut {code b : List Instruction} (hb : b ∈ cut code) :
    b.filterMap Instruction.label = (b.head?.bind Instruction.label).toList := by
  cases b with
  | nil => rfl
  | cons i b =>
    have htail : b.filterMap Instruction.label = [] :=
      List.filterMap_eq_nil_iff.mpr (label_of_mem_cut hb)
    rw [List.filterMap_cons, htail, List.head?_cons, Option.bind_some]
    cases i.label <;> rfl

/-- What building a function guarantees about labels and jumps. -/
structure Function.Linked (f : Function) : Prop extends f.Built where
  labels : f.blocks.filterMap Block.label = f.labels
  targets : ∀ b ∈ f.blocks, ∀ l, b.target? = some l →
    ∃ t ∈ f.blocks, t.label = some l ∧ t.id ∈ b.succs

lemma Function.Linked.mem_labels {f : Function} (hf : f.Linked) {b : Block} {l : String}
    (hb : b ∈ f.blocks) (hl : b.label = some l) : l ∈ f.labels := by
  rw [← hf.labels]
  exact List.mem_filterMap.mpr ⟨b, hb, hl⟩

lemma filterMap_label_layout {code : List Instruction} {id start : Nat}
    {bodies : List (List Instruction)} (h : ∀ b ∈ bodies, b ∈ cut code) :
    (layout id start bodies).filterMap Block.label =
      bodies.flatten.filterMap Instruction.label := by
  induction bodies generalizing id start with
  | nil => rfl
  | cons b bodies ih =>
    rw [layout, List.flatten_cons, List.filterMap_append,
      filterMap_label_of_mem_cut (h b (by simp)), ← ih fun c hc => h c (by simp [hc]),
      List.filterMap_cons, Block.label]
    cases b.head?.bind Instruction.label <;> rfl

section
variable {bs : List Block} {b : Block} {l : String} {n : Nat}

lemma label_of_findBlock (h : findBlock bs l = some n) :
    (bs.map Block.label)[n]? = some (some l) := by
  rw [findBlock] at h
  split at h
  · cases h
  · obtain ⟨hn, hl, -⟩ := List.findIdx?_eq_some_iff_getElem.mp h
    simpa [List.getElem?_eq_getElem hn] using hl

lemma mem_successors_of_target (ht : b.target? = some l) (hl : findBlock bs l = some n) :
    n ∈ successors bs b := by
  rw [successors, ht, Option.bind_some, hl]
  by_cases hn : n ∈ b.next?.toList
  · exact List.mem_append.mpr (Or.inl hn)
  · exact List.mem_append.mpr (Or.inr (by simpa using hn))

end

lemma FunctionDef.map_label_of_build {d : FunctionDef} {f : Function} (h : d.build = .ok f) :
    f.blocks.map Block.label = (layout 0 0 (cut d.code)).map Block.label := by
  rw [← map_bare_of_build h, List.map_map]
  rfl

lemma FunctionDef.linked_of_build {d : FunctionDef} {f : Function} (h : d.build = .ok f) :
    f.Linked := by
  have hlinked := linkedFrom_of_build h
  refine ⟨built_of_build h, ?_, ?_⟩
  · have hlabels : f.blocks.filterMap Block.label =
        (f.blocks.map Block.bare).filterMap Block.label := by
      rw [List.filterMap_map]
      rfl
    rw [hlabels, map_bare_of_build h, filterMap_label_layout fun _ hb => hb, flatten_cut, labels,
      code_of_build h]
  · intro b hb l hl
    have hdefined := hlinked.targets b.bare (bare_mem_of_build h hb)
    obtain ⟨n, hn⟩ : ∃ n, findBlock (layout 0 0 (cut d.code)) l = some n := by
      have htarget : b.bare.target? = some l := hl
      rw [undefinedTarget?, htarget] at hdefined
      apply Option.ne_none_iff_exists'.mp
      simpa [Option.filter] using hdefined
    have hlabel := label_of_findBlock hn
    rw [← map_label_of_build h, List.getElem?_map, Option.map_eq_some_iff] at hlabel
    obtain ⟨t, ht, htl⟩ := hlabel
    have hid : t.id = n := by simpa using (built_of_build h).tiles.id_of_getElem? ht
    refine ⟨t, List.mem_of_getElem? ht, htl, ?_⟩
    rw [hid, hlinked.succs b hb]
    exact mem_successors_of_target hl hn

end MipsBackend

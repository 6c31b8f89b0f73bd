import MipsBackend.Proofs.Partition

/-! The edges of a flow graph. Every jump ends a block and every label starts one, so building a
function fails exactly when a jump of its code has no place to go, and otherwise links each block
to the one that it can fall into and to the one that its jump names. -/
namespace MipsBackend

/-- The instruction can send control to a label. -/
def Instruction.JumpsTo (i : Instruction) (l : String) : Prop :=
  i.op = .goto ∧ i.arg1 = l ∨ ∃ c, i.op = .branch c ∧ i.arg3 = l

/-- The target of a jump is empty, or no instruction of the code carries it. -/
def Dangles (code : List Instruction) (i : Instruction) (l : String) : Prop :=
  i.JumpsTo l ∧ (l = "" ∨ ∀ j ∈ code, j.label ≠ some l)

/-- Number `m` is the first block with a label. -/
def FirstLabelled (blocks : List Block) (l : String) (m : Nat) : Prop :=
  blocks[m]?.bind Block.label = some l ∧ ∀ k < m, blocks[k]?.bind Block.label ≠ some l

/-- The blocks of a code are linked by what their last instructions do. -/
structure Links (code : List Instruction) (blocks : List Block) : Prop where
  succs_nodup : ∀ b ∈ blocks, b.succs.Nodup
  mem_succs : ∀ b ∈ blocks, ∃ last, code[b.stop - 1]? = some last ∧ ∀ m, m ∈ b.succs ↔
    (b.after = some m ∧ last.op ≠ .ret ∧ last.op ≠ .goto) ∨
      ∃ l, last.JumpsTo l ∧ FirstLabelled blocks l m
  jump : ∀ b ∈ blocks, ∀ last l, code[b.stop - 1]? = some last → last.JumpsTo l →
    ∃ m ∈ b.succs, FirstLabelled blocks l m
  preds_nodup : ∀ b ∈ blocks, b.preds.Nodup
  mem_preds : ∀ (n : Nat) (b : Block), blocks[n]? = some b →
    ∀ p, p ∈ b.preds ↔ ∃ q, blocks[p]? = some q ∧ n ∈ q.succs

namespace Instruction
variable {i : Instruction} {l : String}

lemma target?_eq_some_iff : i.target? = some l ↔ i.JumpsTo l := by
  unfold target? JumpsTo
  cases i.op <;> simp

lemma JumpsTo.isTerminal (h : i.JumpsTo l) : i.isTerminal = true := by
  apply isTerminal_iff.mpr
  rcases h with ⟨h, -⟩ | ⟨c, h, -⟩
  · exact Or.inr (Or.inl h)
  · exact Or.inl ⟨c, h⟩

lemma fallsThrough_iff : i.fallsThrough = true ↔ i.op ≠ .ret ∧ i.op ≠ .goto := by
  unfold fallsThrough
  cases i.op <;> simp

end Instruction

/-! ### Jumps and labels of the code -/

/-- A jump stands at the end of its block. -/
lemma exists_getLast?_of_mem_cut {code : List Instruction} {i : Instruction} {l : String}
    (hi : i ∈ code) (hl : i.JumpsTo l) : ∃ b ∈ cut code, b.getLast? = some i := by
  rw [← flatten_cut code, List.mem_flatten] at hi
  obtain ⟨b, hb, hi⟩ := hi
  refine ⟨b, hb, ?_⟩
  have hne := List.ne_nil_of_mem hi
  rw [List.getLast?_eq_some_getLast hne]
  rw [← List.dropLast_append_getLast hne, List.mem_append, List.mem_singleton] at hi
  rcases hi with hi | hi
  · have hterm := isTerminal_of_mem_cut hb i hi
    rw [hl.isTerminal] at hterm
    cases hterm
  · rw [hi]

section
variable {code : List Instruction} {bs : List Block} {b : Block} {l : String} {m : Nat}

/-- The jumps of the blocks are the jumps of the code. -/
lemma exists_target?_iff : (∃ b ∈ layout 0 0 (cut code), b.target? = some l) ↔
    ∃ i ∈ code, i.JumpsTo l := by
  constructor
  · rintro ⟨b, hb, hl⟩
    obtain ⟨i, hi, hil⟩ := Option.bind_eq_some_iff.mp hl
    refine ⟨i, ?_, Instruction.target?_eq_some_iff.mp hil⟩
    rw [← flatten_cut code, List.mem_flatten]
    exact ⟨b.body, body_mem_of_mem_layout hb, List.mem_of_getLast? hi⟩
  · rintro ⟨i, hi, hil⟩
    obtain ⟨body, hbody, hlast⟩ := exists_getLast?_of_mem_cut hi hil
    rw [← map_body_layout 0 0 (cut code), List.mem_map] at hbody
    obtain ⟨b, hb, rfl⟩ := hbody
    refine ⟨b, hb, ?_⟩
    rw [Block.target?, Block.last?, hlast]
    exact Instruction.target?_eq_some_iff.mpr hil

/-- The labels of the blocks are the labels of the code. -/
lemma exists_label_iff : (∃ b ∈ layout 0 0 (cut code), b.label = some l) ↔
    ∃ i ∈ code, i.label = some l := by
  have hlabels : (layout 0 0 (cut code)).filterMap Block.label =
      code.filterMap Instruction.label := by
    rw [filterMap_label_layout fun _ hb => hb, flatten_cut]
  rw [← List.mem_filterMap, hlabels, List.mem_filterMap]

lemma findBlock_eq_none_iff : findBlock bs l = none ↔ l = "" ∨ ∀ b ∈ bs, b.label ≠ some l := by
  rw [findBlock]
  split
  · next h => simp [h]
  · next h => simp [h]

lemma findBlock_eq_some_iff : findBlock bs l = some m ↔ l ≠ "" ∧ FirstLabelled bs l m := by
  rw [findBlock]
  split
  · next h => simp [h]
  · next h =>
    rw [List.findIdx?_eq_some_iff_getElem, FirstLabelled]
    constructor
    · rintro ⟨hm, hl, hfirst⟩
      refine ⟨h, by simpa [List.getElem?_eq_getElem hm] using hl, fun k hk => ?_⟩
      have hlt : k < bs.length := by omega
      simpa [List.getElem?_eq_getElem hlt] using hfirst k hk
    · rintro ⟨-, hl, hfirst⟩
      obtain ⟨t, ht, hl⟩ := Option.bind_eq_some_iff.mp hl
      obtain ⟨hm, rfl⟩ := List.getElem?_eq_some_iff.mp ht
      refine ⟨hm, by simpa using hl, fun k hk => ?_⟩
      have hlt : k < bs.length := by omega
      simpa [List.getElem?_eq_getElem hlt] using hfirst k hk

lemma undefinedTarget?_eq_some_iff :
    undefinedTarget? bs b = some l ↔ b.target? = some l ∧ findBlock bs l = none := by
  rw [undefinedTarget?, Option.filter_eq_some_iff, Option.isNone_iff_eq_none]

/-- Some block jumps to a label that is not there exactly if a jump of the code does. -/
lemma exists_undefinedTarget?_iff :
    (∃ b ∈ layout 0 0 (cut code), undefinedTarget? (layout 0 0 (cut code)) b = some l) ↔
      ∃ i ∈ code, Dangles code i l := by
  have hnone : findBlock (layout 0 0 (cut code)) l = none ↔
      l = "" ∨ ∀ j ∈ code, j.label ≠ some l := by
    have hlabel : (¬ ∃ b ∈ layout 0 0 (cut code), b.label = some l) ↔
        ¬ ∃ j ∈ code, j.label = some l := not_congr exists_label_iff
    push Not at hlabel
    rw [findBlock_eq_none_iff, hlabel]
  simp only [undefinedTarget?_eq_some_iff, hnone, Dangles, ← and_assoc]
  constructor
  · rintro ⟨b, ⟨hb, hl⟩, hdangling⟩
    obtain ⟨i, hi, hil⟩ := exists_target?_iff.mp ⟨b, hb, hl⟩
    exact ⟨i, ⟨hi, hil⟩, hdangling⟩
  · rintro ⟨i, ⟨hi, hil⟩, hdangling⟩
    obtain ⟨b, hb, hl⟩ := exists_target?_iff.mpr ⟨i, hi, hil⟩
    exact ⟨b, ⟨hb, hl⟩, hdangling⟩

lemma FunctionDef.build_fails_iff (d : FunctionDef) :
    (∃ e, d.build = .error e) ↔ ∃ i ∈ d.code, ∃ l, Dangles d.code i l := by
  have hblocks : (∃ i ∈ d.code, ∃ l, Dangles d.code i l) ↔
      ∃ b ∈ layout 0 0 (cut d.code), ∃ l,
        undefinedTarget? (layout 0 0 (cut d.code)) b = some l := by
    constructor
    · rintro ⟨i, hi, l, hl⟩
      obtain ⟨b, hb, hbl⟩ := exists_undefinedTarget?_iff.mpr ⟨i, hi, hl⟩
      exact ⟨b, hb, l, hbl⟩
    · rintro ⟨b, hb, l, hl⟩
      obtain ⟨i, hi, hil⟩ := exists_undefinedTarget?_iff.mp ⟨b, hb, hl⟩
      exact ⟨i, hi, l, hil⟩
  rw [hblocks]
  rcases d.build_cases with ⟨l, hl, herror⟩ | ⟨blocks, hlinked, hok⟩
  · obtain ⟨b, hb, hbl⟩ := List.exists_of_findSome?_eq_some hl
    exact ⟨fun _ => ⟨b, hb, l, hbl⟩, fun _ => ⟨_, herror⟩⟩
  · constructor
    · rintro ⟨e, he⟩
      rw [hok] at he
      cases he
    · rintro ⟨b, hb, l, hl⟩
      rw [hlinked.targets b hb] at hl
      cases hl

/-! ### Successors -/

lemma Block.next?_eq_some_iff {last : Instruction} (hlast : b.last? = some last) :
    b.next? = some m ↔ b.after = some m ∧ last.op ≠ .ret ∧ last.op ≠ .goto := by
  rw [next?, hlast, Option.any_some, ← Instruction.fallsThrough_iff]
  split
  · next h => simp [h]
  · next h => simp [h]

lemma mem_successors_iff :
    m ∈ successors bs b ↔ b.next? = some m ∨ ∃ l, b.target? = some l ∧ findBlock bs l = some m := by
  rw [← Option.bind_eq_some_iff, successors, List.mem_append, List.mem_filter, Option.mem_toList,
    Option.mem_toList]
  by_cases h : b.next? = some m
  · simp [h]
  · simp [h]

end

namespace FunctionDef
variable {d : FunctionDef} {f : Function} {b : Block} {l : String} {m : Nat}

lemma not_dangles_of_build (h : d.build = .ok f) {i : Instruction} (hi : i ∈ f.code) :
    ¬ Dangles f.code i l := by
  intro hl
  rw [code_of_build h] at hi hl
  obtain ⟨e, he⟩ := d.build_fails_iff.mpr ⟨i, hi, l, hl⟩
  rw [h] at he
  cases he

lemma firstLabelled_iff (h : d.build = .ok f) :
    FirstLabelled f.blocks l m ↔ FirstLabelled (layout 0 0 (cut d.code)) l m := by
  have hlabel : ∀ k : Nat, f.blocks[k]?.bind Block.label =
      (layout 0 0 (cut d.code))[k]?.bind Block.label := by
    intro k
    rw [← map_bare_of_build h, List.getElem?_map, Option.bind_map]
    rfl
  simp only [FirstLabelled, hlabel]

/-- A jump of a built function names a block. -/
lemma exists_firstLabelled (h : d.build = .ok f) {i : Instruction} (hi : i ∈ f.code)
    (hl : i.JumpsTo l) : ∃ m, FirstLabelled f.blocks l m := by
  have hdangle := not_dangles_of_build h (l := l) hi
  rw [Dangles, not_and, not_or] at hdangle
  obtain ⟨hne, hlabel⟩ := hdangle hl
  rw [code_of_build h] at hlabel
  push Not at hlabel
  have hfound : findBlock (layout 0 0 (cut d.code)) l ≠ none := by
    rw [Ne, findBlock_eq_none_iff, not_or]
    push Not
    exact ⟨hne, exists_label_iff.mpr hlabel⟩
  obtain ⟨m, hm⟩ := Option.ne_none_iff_exists'.mp hfound
  exact ⟨m, (firstLabelled_iff h).mpr (findBlock_eq_some_iff.mp hm).2⟩

lemma mem_succs_iff (h : d.build = .ok f) (hb : b ∈ f.blocks) {last : Instruction}
    (hlast : f.code[b.stop - 1]? = some last) :
    m ∈ b.succs ↔ (b.after = some m ∧ last.op ≠ .ret ∧ last.op ≠ .goto) ∨
      ∃ l, last.JumpsTo l ∧ FirstLabelled f.blocks l m := by
  have hmem := List.mem_of_getElem? hlast
  rw [(built_of_build h).getElem?_last hb] at hlast
  have htarget : ∀ l, b.target? = some l ↔ last.JumpsTo l := by
    intro l
    rw [Block.target?, hlast, Option.bind_some, Instruction.target?_eq_some_iff]
  have hfind : ∀ l, last.JumpsTo l →
      (findBlock (layout 0 0 (cut d.code)) l = some m ↔ FirstLabelled f.blocks l m) := by
    intro l hl
    have hne : l ≠ "" := fun hempty => not_dangles_of_build h hmem ⟨hl, Or.inl hempty⟩
    rw [findBlock_eq_some_iff, firstLabelled_iff h]
    exact and_iff_right hne
  have hsuccs : m ∈ b.succs ↔ b.next? = some m ∨
      ∃ l, b.target? = some l ∧ findBlock (layout 0 0 (cut d.code)) l = some m := by
    rw [(linkedFrom_of_build h).succs b hb]
    exact mem_successors_iff
  rw [Block.next?_eq_some_iff hlast] at hsuccs
  refine hsuccs.trans (or_congr_right (exists_congr fun l => ?_))
  exact (and_congr_left' (htarget l)).trans (and_congr_right (hfind l))

end FunctionDef

/-- Building fails exactly if a jump, wherever it stands in the code, has an empty target or one
that no instruction carries, and otherwise links the blocks by what their last instructions do. -/
theorem build_links_blocks (d : FunctionDef) :
    ((∃ e, d.build = .error e) ↔ ∃ i ∈ d.code, ∃ l, Dangles d.code i l) ∧
      ∀ f, d.build = .ok f → Links d.code f.blocks := by
  refine ⟨d.build_fails_iff, fun f h => ?_⟩
  have hf := d.built_of_build h
  have hpaired := (FunctionDef.linkedFrom_of_build h).paired
  rw [← FunctionDef.code_of_build h]
  have hlast : ∀ b ∈ f.blocks, ∃ last, f.code[b.stop - 1]? = some last := by
    intro b hb
    exact ⟨_, List.getElem?_eq_getElem (hf.lt_length hb (hf.last_contains hb))⟩
  constructor
  case succs_nodup => exact hpaired.succs_nodup
  case mem_succs =>
    intro b hb
    obtain ⟨last, hl⟩ := hlast b hb
    exact ⟨last, hl, fun m => FunctionDef.mem_succs_iff h hb hl⟩
  case jump =>
    intro b hb last l hl hjump
    obtain ⟨m, hm⟩ := FunctionDef.exists_firstLabelled h (List.mem_of_getElem? hl) hjump
    exact ⟨m, (FunctionDef.mem_succs_iff h hb hl).mpr (Or.inr ⟨l, hjump, hm⟩), hm⟩
  case preds_nodup => exact hpaired.preds_nodup
  case mem_preds => exact hpaired.mem_preds

theorem build_links_detour :
    (detour.build = .ok detourFunction ∧ Links detour.code detourFunction.blocks) ∧
      ∃ e, { detour with code := detour.code.take 2 }.build = .error e := by
  refine ⟨⟨build_detour, (build_links_blocks detour).2 _ build_detour⟩, ?_⟩
  -- without the instructions that carry the label, the first jump has no place to go
  apply (build_links_blocks _).1.mpr
  exact ⟨_, List.mem_cons_self, "l", Or.inl ⟨rfl, rfl⟩, Or.inr (by decide)⟩

example : detourFunction.blocks.map (fun b => (b.succs, b.preds)) =
    [([2], []), ([2], []), ([3, 2], [0, 1, 2]), ([], [2])] := by decide

end MipsBackend

import MipsBackend.Liveness.Basic
import MipsBackend.Proofs.Collections
import MipsBackend.Proofs.Linking

/-! Built functions: their blocks cover the code one after the other, so positions in the code and
positions in blocks can be exchanged. Control goes from an instruction to the next one of its
block, and from the last one of a block to the first ones of the blocks that follow. -/
namespace MipsBackend

/-- The blocks are not empty, have consecutive numbers from `id` on, and cover the code from
position `start` on without gaps. -/
def Tiles : Nat → Nat → List Block → Prop
  | _, _, [] => True
  | id, start, b :: bs => b.id = id ∧ b.start = start ∧ b.body ≠ [] ∧ Tiles (id + 1) b.stop bs

/-- A position inside of a block. -/
def Block.Contains (b : Block) (i : Nat) : Prop := b.start ≤ i ∧ i < b.stop

lemma tiles_layout {id start : Nat} {bodies : List (List Instruction)} (h : ∀ b ∈ bodies, b ≠ []) :
    Tiles id start (layout id start bodies) := by
  induction bodies generalizing id start with
  | nil => trivial
  | cons b bodies ih => exact ⟨rfl, rfl, h b (by simp), ih fun c hc => h c (by simp [hc])⟩

lemma flatMap_body_layout {id start : Nat} {bodies : List (List Instruction)} :
    (layout id start bodies).flatMap Block.body = bodies.flatten := by
  induction bodies generalizing id start with
  | nil => rfl
  | cons b bodies ih => simp [layout, ih]

namespace Tiles
variable {id start : Nat} {bs : List Block} {b : Block} {i : Nat}

/-- Links do not count. -/
lemma map_bare_iff : Tiles id start (bs.map Block.bare) ↔ Tiles id start bs := by
  induction bs generalizing id start with
  | nil => rfl
  | cons b bs ih =>
    exact and_congr_right fun _ => and_congr_right fun _ => and_congr_right fun _ => ih

lemma map_id (h : Tiles id start bs) : bs.map Block.id = List.range' id bs.length := by
  induction bs generalizing id start with
  | nil => rfl
  | cons b bs ih =>
    obtain ⟨h1, -, -, h4⟩ := h
    rw [List.map_cons, List.length_cons, List.range'_succ, h1, ih h4]

lemma start_le (h : Tiles id start bs) (hb : b ∈ bs) : start ≤ b.start := by
  induction bs generalizing id start with
  | nil => simp at hb
  | cons c bs ih =>
    obtain ⟨-, h2, -, h4⟩ := h
    rcases List.mem_cons.mp hb with rfl | hb
    · omega
    · have := ih h4 hb
      rw [Block.stop] at this
      omega

lemma body_ne_nil (h : Tiles id start bs) (hb : b ∈ bs) : b.body ≠ [] := by
  induction bs generalizing id start with
  | nil => simp at hb
  | cons c bs ih =>
    obtain ⟨-, -, h3, h4⟩ := h
    rcases List.mem_cons.mp hb with rfl | hb
    · exact h3
    · exact ih h4 hb

lemma id_of_getElem? (h : Tiles id start bs) {n : Nat} (hn : bs[n]? = some b) : b.id = id + n := by
  induction bs generalizing id start n with
  | nil => simp at hn
  | cons c bs ih =>
    obtain ⟨h1, -, -, h4⟩ := h
    cases n with
    | zero =>
      obtain rfl : c = b := by simpa using hn
      exact h1
    | succ n =>
      rw [ih h4 (by simpa using hn)]
      omega

/-- No position lies in two blocks. -/
lemma unique {c : Block} (h : Tiles id start bs) (hb : b ∈ bs) (hc : c ∈ bs) (hbi : b.Contains i)
    (hci : c.Contains i) : b = c := by
  induction bs generalizing id start with
  | nil => simp at hb
  | cons d bs ih =>
    obtain ⟨-, -, -, h4⟩ := h
    rcases List.mem_cons.mp hb with rfl | hb' <;> rcases List.mem_cons.mp hc with rfl | hc'
    · rfl
    · have := h4.start_le hc'
      have := hbi.2
      have := hci.1
      omega
    · have := h4.start_le hb'
      have := hci.2
      have := hbi.1
      omega
    · exact ih h4 hb' hc'

/-- Lists that belong to the blocks, with an entry for every instruction, put one after the other:
the entries of a block are found at its positions. -/
lemma getElem?_flatMap {β : Type} {g : Block → List β} (hg : ∀ b, (g b).length = b.body.length)
    (h : Tiles id start bs) (hb : b ∈ bs) {n : Nat} (hn : n < b.body.length) :
    (bs.flatMap g)[b.start - start + n]? = (g b)[n]? := by
  induction bs generalizing id start with
  | nil => simp at hb
  | cons c bs ih =>
    obtain ⟨-, h2, -, h4⟩ := h
    rw [List.flatMap_cons]
    rcases List.mem_cons.mp hb with rfl | hb
    · rw [h2, Nat.sub_self, Nat.zero_add, List.getElem?_append_left (by rw [hg]; exact hn)]
    · have hle := h4.start_le hb
      have hstop : c.stop = start + (g c).length := by rw [Block.stop, h2, hg]
      rw [List.getElem?_append_right (by omega), ← ih h4 hb]
      congr 1
      omega

/-- Every position of the code lies in a block. -/
lemma exists_contains (h : Tiles id start bs) (hi : i < (bs.flatMap Block.body).length) :
    ∃ b ∈ bs, b.Contains (start + i) := by
  induction bs generalizing id start i with
  | nil => simp at hi
  | cons c bs ih =>
    obtain ⟨-, h2, -, h4⟩ := h
    by_cases hc : i < c.body.length
    · refine ⟨c, by simp, ?_⟩
      rw [Block.Contains, Block.stop]
      omega
    · rw [List.flatMap_cons, List.length_append] at hi
      obtain ⟨b, hb, hbi⟩ := ih h4 (i := i - c.body.length) (by omega)
      refine ⟨b, by simp [hb], ?_⟩
      have : c.stop + (i - c.body.length) = start + i := by rw [Block.stop]; omega
      rwa [this] at hbi

end Tiles

/-! ### Walks -/

/-- The blocks that are visited from one on, going to the one that each says comes next in the code,
until one says that none does. -/
inductive Follows (bs : List Block) : Option Nat → List Block → Prop
  | stop : Follows bs none []
  | visit {n : Nat} {b : Block} {rest : List Block} (hb : bs[n]? = some b) :
      Follows bs b.after rest → Follows bs (some n) (b :: rest)

section
variable {bs rest : List Block} {b : Block} {o : Option Nat} {n steps : Nat}

/-- A walk with steps enough for the whole way takes it. -/
lemma Follows.walkFrom_eq (h : Follows bs o rest) (hsteps : rest.length ≤ steps) :
    walkFrom bs steps o = rest := by
  induction h generalizing steps with
  | stop => cases steps <;> rfl
  | visit hb _ ih =>
    obtain ⟨steps, rfl⟩ : ∃ m, steps = m + 1 := ⟨steps - 1, by simp at hsteps; omega⟩
    rw [walkFrom, hb]
    exact congrArg _ (ih (by simpa using hsteps))

lemma mem_of_mem_walkFrom (h : b ∈ walkFrom bs steps o) : b ∈ bs := by
  induction steps generalizing o with
  | zero => simp [walkFrom] at h
  | succ steps ih =>
    cases o with
    | none => simp [walkFrom] at h
    | some n =>
      rw [walkFrom] at h
      split at h
      · next c hc =>
        rcases List.mem_cons.mp h with rfl | h
        · exact List.mem_of_getElem? hc
        · exact ih h
      · cases h

lemma Function.mem_blocks_of_mem_walk {f : Function} (h : b ∈ f.walk) : b ∈ f.blocks :=
  mem_of_mem_walkFrom h

/-- Where each block says that the one behind it comes next, all that are behind are visited. -/
lemma follows_drop (hafter : ∀ (n : Nat) (b : Block), bs[n]? = some b →
    b.after = if n + 1 < bs.length then some (n + 1) else none) (hn : n < bs.length) :
    Follows bs (some n) (bs.drop n) := by
  induction hk : bs.length - n generalizing n with
  | zero => omega
  | succ k ih =>
    have hb := List.getElem?_eq_getElem hn
    rw [List.drop_eq_getElem_cons hn]
    refine .visit hb ?_
    rw [hafter n _ hb]
    split
    · next hlt => exact ih hlt (by omega)
    · rw [List.drop_eq_nil_of_le (by omega)]
      exact .stop

end

/-! ### Built functions -/

/-- What building a function guarantees about its flow graph. -/
structure Function.Built (f : Function) : Prop where
  tiles : Tiles 0 0 f.blocks
  code : f.blocks.flatMap Block.body = f.code
  after : ∀ (n : Nat) (b : Block), f.blocks[n]? = some b →
    b.after = if n + 1 < f.blocks.length then some (n + 1) else none
  succs : ∀ b ∈ f.blocks, ∀ n ∈ b.succs, n < f.blocks.length
  terminal : ∀ b ∈ f.blocks, ∀ i ∈ b.body.dropLast, i.isTerminal = false

namespace Function.Built
variable {f : Function}

/-- The way from the entry goes through all blocks in their order. -/
lemma follows (hf : f.Built) : Follows f.blocks f.entry? f.blocks := by
  unfold entry?
  cases hb : f.blocks with
  | nil => exact .stop
  | cons b bs =>
    have hway := follows_drop hf.after (n := 0) (by simp [hb])
    rwa [List.drop_zero, hb] at hway

lemma walk_eq (hf : f.Built) : f.walk = f.blocks := hf.follows.walkFrom_eq (Nat.le_refl _)

end Function.Built

/-- Only the last instruction of a block can be terminal. -/
lemma isTerminal_of_mem_cut {code b : List Instruction} (hb : b ∈ cut code) :
    ∀ i ∈ b.dropLast, i.isTerminal = false := by
  induction code generalizing b with
  | nil => simp [cut] at hb
  | cons j code ih =>
    rw [cut] at hb
    cases hc : cut code with
    | nil =>
      obtain rfl : b = [j] := by simpa [hc] using hb
      simp
    | cons c cs =>
      have hmem : c ∈ cut code := by simp [hc]
      have hne := ne_nil_of_mem_cut hmem
      have ihc := ih hmem
      simp only [hc] at hb
      split at hb
      · rcases List.mem_cons.mp hb with rfl | hb
        · simp
        · exact ih (by rwa [hc])
      · next hbound =>
        rcases List.mem_cons.mp hb with rfl | hb
        · rw [List.dropLast_cons_of_ne_nil hne]
          simp only [isBoundary, Bool.or_eq_true, not_or] at hbound
          intro i hi
          rcases List.mem_cons.mp hi with rfl | hi
          · simpa using hbound.1
          · exact ihc i hi
        · exact ih (by simp [hc, hb])

lemma body_mem_of_mem_layout {id start : Nat} {bodies : List (List Instruction)} {b : Block}
    (hb : b ∈ layout id start bodies) : b.body ∈ bodies := by
  induction bodies generalizing id start with
  | nil => simp [layout] at hb
  | cons c bodies ih =>
    rw [layout, List.mem_cons] at hb
    rcases hb with rfl | hb
    · simp
    · exact List.mem_cons_of_mem _ (ih hb)

lemma length_layout {id start : Nat} {bodies : List (List Instruction)} :
    (layout id start bodies).length = bodies.length := by
  induction bodies generalizing id start with
  | nil => rfl
  | cons b bodies ih => simp [layout, ih]

lemma after_layout {id start j : Nat} {bodies : List (List Instruction)} {b : Block}
    (h : (layout id start bodies)[j]? = some b) :
    b.after = if j + 1 < bodies.length then some (id + j + 1) else none := by
  induction bodies generalizing id start j with
  | nil => simp [layout] at h
  | cons c bodies ih =>
    rw [layout] at h
    cases j with
    | zero =>
      rw [List.getElem?_cons_zero] at h
      cases h
      cases bodies <;> simp
    | succ j =>
      rw [List.getElem?_cons_succ] at h
      rw [ih h, List.length_cons]
      have hid : id + 1 + j + 1 = id + (j + 1) + 1 := by omega
      simp only [Nat.add_lt_add_iff_right, hid]

lemma lt_of_mem_successors {bodies : List (List Instruction)} {b : Block} {n : Nat}
    (hb : b ∈ layout 0 0 bodies) (hn : n ∈ successors (layout 0 0 bodies) b) :
    n < (layout 0 0 bodies).length := by
  rw [successors, List.mem_append, List.mem_filter] at hn
  rcases hn with hn | ⟨hn, -⟩
  · have hafter : b.after = some n := by
      rw [Block.next?] at hn
      split at hn <;> simp_all
    obtain ⟨j, hj⟩ := List.mem_iff_getElem?.mp hb
    rw [after_layout hj] at hafter
    rw [length_layout]
    split at hafter
    · cases hafter
      omega
    · cases hafter
  · rw [Option.mem_toList, Option.bind_eq_some_iff] at hn
    obtain ⟨t, -, ht⟩ := hn
    rw [findBlock] at ht
    split at ht
    · cases ht
    · exact (List.findIdx?_eq_some_iff_getElem.mp ht).1

lemma map_bare_layout (id start : Nat) (bodies : List (List Instruction)) :
    (layout id start bodies).map Block.bare = layout id start bodies := by
  induction bodies generalizing id start with
  | nil => rfl
  | cons b bodies ih => rw [layout, List.map_cons, ih, Block.bare]

namespace FunctionDef
variable {d : FunctionDef} {f : Function}

/-- The blocks of the code are linked, or one of them jumps to a label that is not there. -/
lemma build_cases (d : FunctionDef) :
    (∃ l, (layout 0 0 (cut d.code)).findSome? (undefinedTarget? (layout 0 0 (cut d.code))) =
      some l ∧ d.build = .error ⟨d.name, l⟩) ∨
    ∃ blocks, LinkedFrom (layout 0 0 (cut d.code)) blocks ∧
      d.build = .ok { d.collectArrays with blocks := blocks } := by
  have htiles : Tiles 0 0 (layout 0 0 (cut d.code)) := tiles_layout fun b hb => ne_nil_of_mem_cut hb
  have hids := htiles.map_id.trans List.range_eq_range'.symm
  rw [build]
  rcases linkBlocks_cases hids (map_bare_layout 0 0 _) with
    ⟨l, hl, hlink⟩ | ⟨blocks, hlinked, hlink⟩
  · exact Or.inl ⟨l, hl, by rw [hlink]⟩
  · exact Or.inr ⟨blocks, hlink, by rw [hlinked]⟩

lemma exists_of_build (h : d.build = .ok f) :
    ∃ blocks, LinkedFrom (layout 0 0 (cut d.code)) blocks ∧
      f = { d.collectArrays with blocks := blocks } := by
  rcases d.build_cases with ⟨l, -, hl⟩ | ⟨blocks, hlinked, hblocks⟩
  · rw [h] at hl
    cases hl
  · rw [h] at hblocks
    exact ⟨blocks, hlinked, Except.ok.inj hblocks⟩

lemma code_of_build (h : d.build = .ok f) : f.code = d.code := by
  obtain ⟨blocks, -, rfl⟩ := exists_of_build h
  rfl

lemma linkedFrom_of_build (h : d.build = .ok f) :
    LinkedFrom (layout 0 0 (cut d.code)) f.blocks := by
  obtain ⟨blocks, hlinked, rfl⟩ := exists_of_build h
  exact hlinked

/-- But for their links, the blocks are those of the code. -/
lemma map_bare_of_build (h : d.build = .ok f) :
    f.blocks.map Block.bare = layout 0 0 (cut d.code) :=
  (linkedFrom_of_build h).bare.trans (map_bare_layout 0 0 _)

lemma bare_mem_of_build (h : d.build = .ok f) {b : Block} (hb : b ∈ f.blocks) :
    b.bare ∈ layout 0 0 (cut d.code) := by
  rw [← map_bare_of_build h]
  exact List.mem_map_of_mem hb

lemma built_of_build (h : d.build = .ok f) : f.Built := by
  have hlinked := linkedFrom_of_build h
  have hbare := map_bare_of_build h
  have hlength : f.blocks.length = (layout 0 0 (cut d.code)).length := by
    rw [← hbare, List.length_map]
  refine ⟨?_, ?_, ?_, ?_, ?_⟩
  · apply Tiles.map_bare_iff.mp
    rw [hbare]
    exact tiles_layout fun b hb => ne_nil_of_mem_cut hb
  · have hbody : f.blocks.map Block.body = (f.blocks.map Block.bare).map Block.body := by
      rw [List.map_map]
      rfl
    rw [List.flatMap_def, hbody, hbare, ← List.flatMap_def, flatMap_body_layout, flatten_cut,
      code_of_build h]
  · intro n b hb
    have hbare' : (layout 0 0 (cut d.code))[n]? = some b.bare := by
      rw [← hbare, List.getElem?_map, hb, Option.map_some]
    have hafter := after_layout hbare'
    rw [Nat.zero_add, ← length_layout, ← hlength] at hafter
    exact hafter
  · intro b hb n hn
    rw [hlinked.succs b hb] at hn
    rw [hlength]
    exact lt_of_mem_successors (bare_mem_of_build h hb) hn
  · intro b hb
    have hbody : b.bare.body ∈ cut d.code := body_mem_of_mem_layout (bare_mem_of_build h hb)
    exact isTerminal_of_mem_cut hbody

end FunctionDef

end MipsBackend

import Mathlib.Data.List.Chain
import MipsBackend.Proofs.Labels

/-! Building a function cuts its code into basic blocks that are as long as they can be: a block
starts at the first instruction, at every label and behind every jump, return or call, and nowhere
else. -/
namespace MipsBackend

/-- The opcodes after which a block ends. -/
def Opcode.EndsBlock (op : Opcode) : Prop :=
  (∃ c, op = .branch c) ∨ op = .goto ∨ op = .ret ∨ op = .call ∨ op = .callr

lemma Instruction.isTerminal_iff {i : Instruction} : i.isTerminal = true ↔ i.op.EndsBlock := by
  unfold isTerminal Opcode.EndsBlock
  cases i.op <;> simp

/-- A position where a block has to start. -/
def Leads (code : List Instruction) (i : Nat) : Prop :=
  i < code.length ∧
    (i = 0 ∨ (∃ ins, code[i]? = some ins ∧ ins.label ≠ none) ∨
      ∃ ins j, i = j + 1 ∧ code[j]? = some ins ∧ ins.op.EndsBlock)

/-- The basic blocks of a code, in order. -/
structure Partitions (code : List Instruction) (blocks : List Block) : Prop where
  numbered : ∀ (j : Nat) (b : Block), blocks[j]? = some b → b.id = j
  nonempty : ∀ b ∈ blocks, b.start < b.stop
  first : ∃ b, blocks[0]? = some b ∧ b.start = 0
  consecutive : ∀ (j : Nat) (b c : Block), blocks[j]? = some b → blocks[j + 1]? = some c →
    c.start = b.stop
  covers : ∀ i, i < code.length ↔ ∃ b ∈ blocks, b.start ≤ i ∧ i < b.stop
  body : ∀ b ∈ blocks, b.body = (code.drop b.start).take (b.stop - b.start)
  starts : ∀ i, (∃ b ∈ blocks, b.start = i) ↔ Leads code i
  label : ∀ b ∈ blocks, ∃ ins, code[b.start]? = some ins ∧ b.label = ins.label
  inner_label : ∀ b ∈ blocks, ∀ i, b.start < i → i < b.stop →
    ∃ ins, code[i]? = some ins ∧ ins.label = none
  inner_end : ∀ b ∈ blocks, ∀ i j, b.start ≤ j → j < i → i < b.stop →
    ∃ ins, code[j]? = some ins ∧ ¬ ins.op.EndsBlock
  after : ∀ (j : Nat) (b : Block), blocks[j]? = some b →
    b.after = if j + 1 < blocks.length then some (j + 1) else none

/-! ### Cutting -/

/-- Between two blocks that follow each other there is a boundary. -/
lemma isChain_cut (code : List Instruction) :
    (cut code).IsChain fun a b => ∃ i, a.getLast? = some i ∧ isBoundary i b = true := by
  induction code with
  | nil => exact .nil
  | cons i code ih =>
    rw [cut]
    cases hc : cut code with
    | nil => exact .singleton _
    | cons b bs =>
      rw [hc] at ih
      dsimp only
      split
      · next hb =>
        apply List.isChain_cons_cons.mpr
        exact ⟨⟨i, rfl, hb⟩, ih⟩
      · -- the first block grows to the left, its end stays
        have hne : b ≠ [] := ne_nil_of_mem_cut (by rw [hc]; simp)
        have hlast : (i :: b).getLast? = b.getLast? := by
          rw [List.getLast?_cons, List.getLast?_eq_some_getLast hne]
          rfl
        rw [List.isChain_cons] at ih ⊢
        rw [hlast]
        exact ih

lemma map_body_layout (id start : Nat) (bodies : List (List Instruction)) :
    (layout id start bodies).map Block.body = bodies := by
  induction bodies generalizing id start with
  | nil => rfl
  | cons b bodies ih => rw [layout, List.map_cons, ih]

/-! ### Blocks of a built function -/

namespace Tiles
variable {id start j : Nat} {bs : List Block} {b c : Block}

lemma start_of_getElem?_zero (h : Tiles id start bs) (hb : bs[0]? = some b) : b.start = start := by
  cases bs with
  | nil => simp at hb
  | cons d bs =>
    cases hb
    exact h.2.1

lemma start_of_getElem?_succ (h : Tiles id start bs) (hb : bs[j]? = some b)
    (hc : bs[j + 1]? = some c) : c.start = b.stop := by
  induction bs generalizing id start j with
  | nil => simp at hb
  | cons d bs ih =>
    rw [List.getElem?_cons_succ] at hc
    cases j with
    | zero =>
      cases hb
      exact h.2.2.2.start_of_getElem?_zero hc
    | succ j => exact ih h.2.2.2 hb hc

end Tiles

section
variable {f : Function} {d : FunctionDef} {a b : Block} {i j n : Nat} {ins : Instruction}

lemma FunctionDef.map_body_of_build (h : d.build = .ok f) :
    f.blocks.map Block.body = cut d.code := by
  rw [← map_body_layout 0 0 (cut d.code), ← map_bare_of_build h, List.map_map]
  rfl

lemma FunctionDef.body_mem_of_build (h : d.build = .ok f) (hb : b ∈ f.blocks) :
    b.body ∈ cut d.code := by
  rw [← map_body_of_build h]
  exact List.mem_map_of_mem hb

/-- Between two blocks that follow each other there is a boundary. -/
lemma FunctionDef.boundary_of_build (h : d.build = .ok f) (ha : f.blocks[j]? = some a)
    (hb : f.blocks[j + 1]? = some b) : ∃ i, a.last? = some i ∧ isBoundary i b.body = true := by
  have hchain := isChain_cut d.code
  rw [← map_body_of_build h, List.isChain_map, List.isChain_iff_getElem] at hchain
  obtain ⟨hj, rfl⟩ := List.getElem?_eq_some_iff.mp ha
  obtain ⟨hj', rfl⟩ := List.getElem?_eq_some_iff.mp hb
  exact hchain j hj'

lemma Block.contains_iff : b.Contains i ↔ ∃ n, n < b.body.length ∧ i = b.start + n := by
  rw [Contains, stop]
  constructor
  · intro hi
    exact ⟨i - b.start, by omega, by omega⟩
  · rintro ⟨n, hn, rfl⟩
    omega

namespace Function.Built

lemma getElem?_start_add (hf : f.Built) (hb : b ∈ f.blocks) (hn : n < b.body.length) :
    f.code[b.start + n]? = b.body[n]? := by
  have hin : b.Contains (b.start + n) := Block.contains_iff.mpr ⟨n, hn, rfl⟩
  rw [hf.getElem?_code hb hin, Nat.add_sub_cancel_left]

lemma body_eq (hf : f.Built) (hb : b ∈ f.blocks) :
    b.body = (f.code.drop b.start).take (b.stop - b.start) := by
  have hlen : b.stop - b.start = b.body.length := by
    rw [Block.stop]
    omega
  apply List.ext_getElem?
  intro n
  rw [List.getElem?_take, List.getElem?_drop, hlen]
  split
  · next hn => exact (hf.getElem?_start_add hb hn).symm
  · next hn => exact List.getElem?_eq_none (by omega)

lemma getElem?_last (hf : f.Built) (hb : b ∈ f.blocks) : f.code[b.stop - 1]? = b.last? := by
  have hpos := List.length_pos_iff.mpr (hf.tiles.body_ne_nil hb)
  have hlast : b.stop - 1 = b.start + (b.body.length - 1) := by
    rw [Block.stop]
    omega
  rw [hlast, hf.getElem?_start_add hb (by omega), Block.last?, List.getLast?_eq_getElem?]

lemma getElem?_first (hf : f.Built) (hb : b ∈ f.blocks) : f.code[b.start]? = b.body.head? := by
  have hpos := List.length_pos_iff.mpr (hf.tiles.body_ne_nil hb)
  rw [← Nat.add_zero b.start, hf.getElem?_start_add hb hpos, List.head?_eq_getElem?]

lemma covers_iff (hf : f.Built) : i < f.code.length ↔ ∃ b ∈ f.blocks, b.Contains i :=
  ⟨hf.exists_block, fun h => h.elim fun _ h => hf.lt_length h.1 h.2⟩

end Function.Built

/-- Behind the first instruction of a block there is no label. -/
lemma FunctionDef.label_of_build (h : d.build = .ok f) (hb : b ∈ f.blocks) (hstart : b.start < i)
    (hstop : i < b.stop) (hi : f.code[i]? = some ins) : ins.label = none := by
  have hf := built_of_build h
  have hin : b.Contains i := ⟨hstart.le, hstop⟩
  obtain ⟨n, hn, rfl⟩ := Block.contains_iff.mp hin
  rw [hf.getElem?_start_add hb hn] at hi
  apply label_of_mem_cut (body_mem_of_build h hb)
  obtain ⟨m, rfl⟩ : ∃ m, n = m + 1 := ⟨n - 1, by omega⟩
  rw [← List.getElem?_tail] at hi
  exact List.mem_of_getElem? hi

/-- Before the last instruction of a block there is none that ends it. -/
lemma FunctionDef.isTerminal_of_build (h : d.build = .ok f) (hb : b ∈ f.blocks)
    (hstart : b.start ≤ i) (hstop : i + 1 < b.stop) (hi : f.code[i]? = some ins) :
    ins.isTerminal = false := by
  have hf := built_of_build h
  have hin : b.Contains i := ⟨hstart, by omega⟩
  obtain ⟨n, hn, rfl⟩ := Block.contains_iff.mp hin
  rw [hf.getElem?_start_add hb hn] at hi
  apply hf.terminal b hb
  rw [Block.stop] at hstop
  rw [List.dropLast_eq_take]
  apply List.mem_of_getElem? (i := n)
  rw [List.getElem?_take, if_pos (by omega)]
  exact hi

/-- A block starts exactly where one has to. -/
lemma FunctionDef.starts_iff (h : d.build = .ok f) :
    (∃ b ∈ f.blocks, b.start = i) ↔ Leads f.code i := by
  have hf := built_of_build h
  constructor
  · rintro ⟨b, hb, rfl⟩
    refine ⟨hf.lt_length hb (hf.start_contains hb), ?_⟩
    obtain ⟨j, hj⟩ := List.mem_iff_getElem?.mp hb
    cases j with
    | zero => exact Or.inl (hf.tiles.start_of_getElem?_zero hj)
    | succ j =>
      right
      obtain ⟨a, ha⟩ : ∃ a, f.blocks[j]? = some a := by
        have hlt := (List.getElem?_eq_some_iff.mp hj).1
        exact ⟨f.blocks[j], List.getElem?_eq_getElem (by omega)⟩
      have hmem := List.mem_of_getElem? ha
      have hstop := hf.tiles.start_of_getElem?_succ ha hj
      obtain ⟨ins, hlast, hbound⟩ := boundary_of_build h ha hj
      rw [isBoundary, Bool.or_eq_true] at hbound
      rcases hbound with hterm | hlabel
      · right
        have hlt := (hf.last_contains hmem).1
        have hpos := (hf.start_contains hmem).2
        refine ⟨ins, a.stop - 1, by omega, ?_, Instruction.isTerminal_iff.mp hterm⟩
        rw [hf.getElem?_last hmem, hlast]
      · left
        obtain ⟨l, hl⟩ := Option.isSome_iff_exists.mp hlabel
        obtain ⟨k, hk, hkl⟩ := Option.bind_eq_some_iff.mp hl
        exact ⟨k, by rw [hf.getElem?_first hb, hk], by simp [hkl]⟩
  · rintro ⟨hi, hlead⟩
    obtain ⟨b, hb, hin⟩ := hf.exists_block hi
    refine ⟨b, hb, ?_⟩
    by_contra hne
    have hlt : b.start < i := lt_of_le_of_ne hin.1 hne
    rcases hlead with rfl | ⟨ins, hins, hlabel⟩ | ⟨ins, j, rfl, hins, hend⟩
    · omega
    · exact hlabel (label_of_build h hb hlt hin.2 hins)
    · have hterm := isTerminal_of_build h hb (by omega) hin.2 hins
      rw [Instruction.isTerminal_iff.mpr hend] at hterm
      cases hterm

end

/-- Building a function that has code cuts it into its basic blocks. -/
theorem build_partitions_code {d : FunctionDef} {f : Function} (hcode : d.code ≠ [])
    (h : d.build = .ok f) : Partitions d.code f.blocks := by
  have hf := d.built_of_build h
  have hsame : d.code = f.code := (FunctionDef.code_of_build h).symm
  have hpos : 0 < f.code.length := List.length_pos_iff.mpr (hsame ▸ hcode)
  rw [hsame]
  constructor
  case numbered =>
    intro j b hb
    simpa using hf.tiles.id_of_getElem? hb
  case nonempty =>
    intro b hb
    exact (hf.start_contains hb).2
  case first =>
    obtain ⟨c, hc, -⟩ := hf.exists_block hpos
    have hlt : 0 < f.blocks.length := List.length_pos_of_mem hc
    have hb := List.getElem?_eq_getElem hlt
    exact ⟨f.blocks[0], hb, hf.tiles.start_of_getElem?_zero hb⟩
  case consecutive =>
    intro j b c hb hc
    exact hf.tiles.start_of_getElem?_succ hb hc
  case covers => exact fun i => hf.covers_iff
  case body => exact fun b hb => hf.body_eq hb
  case starts => exact fun i => FunctionDef.starts_iff h
  case label =>
    intro b hb
    have hins := List.getElem?_eq_getElem (hf.lt_length hb (hf.start_contains hb))
    refine ⟨_, hins, ?_⟩
    rw [Block.label, ← hf.getElem?_first hb, hins, Option.bind_some]
  case inner_label =>
    intro b hb i hstart hstop
    have hlt := hf.lt_length hb ⟨hstart.le, hstop⟩
    have hins := List.getElem?_eq_getElem hlt
    exact ⟨f.code[i], hins, FunctionDef.label_of_build h hb hstart hstop hins⟩
  case inner_end =>
    intro b hb i j hstart hji hstop
    have hlt := hf.lt_length hb (i := j) ⟨hstart, by omega⟩
    have hins := List.getElem?_eq_getElem hlt
    refine ⟨f.code[j], hins, fun hend => ?_⟩
    have hterm := FunctionDef.isTerminal_of_build h hb hstart (by omega) hins
    rw [Instruction.isTerminal_iff.mpr hend] at hterm
    cases hterm
  case after => exact hf.after

/-- A loop behind code that is jumped over. Its label stands twice, once right behind the branch. -/
def detour : FunctionDef where
  name := "f"
  ints := ["n"]
  code := [
    { op := .goto, arg1 := "l" },
    { op := .assign, arg1 := "n", arg2 := "1" },
    { op := .arith .sub, arg1 := "n", arg2 := "1", arg3 := "n", label := some "l" },
    { op := .assign, arg1 := "m", arg2 := "n" },
    { op := .branch .ne, arg1 := "n", arg2 := "0", arg3 := "l" },
    { op := .ret, label := some "l" }]

def detourFunction : Function := detour.build.toOption.get (by decide)

lemma build_detour : detour.build = .ok detourFunction := by decide +kernel

theorem build_partitions_detour : detour.code ≠ [] ∧ detour.build = .ok detourFunction ∧
    Partitions detour.code detourFunction.blocks :=
  ⟨by decide, build_detour, build_partitions_code (by decide) build_detour⟩

example : detourFunction.blocks.map (fun b => (b.start, b.stop)) =
    [(0, 1), (1, 2), (2, 5), (5, 6)] := by decide

end MipsBackend

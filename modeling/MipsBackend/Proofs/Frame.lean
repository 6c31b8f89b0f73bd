import MipsBackend.Proofs.Addressing
import MipsBackend.Proofs.Pieces
import MipsBackend.Proofs.Reading

/-! The frame. A function makes its frame and saves the return address before all else, and each
return gives both back. In between, no line writes the stack pointer or the return address, and
memory is touched only where variables and array elements are. -/
namespace MipsBackend
open Asm Asm.Register

/-! ### Lines -/

namespace Asm

/-- The mnemonics of lines that write no register which is their operand. -/
def quietOps : List String := ["sw", "s.s", "j", "jal", "jr", "syscall"] ++ branchOps

namespace Line

/-- The register that a line writes. -/
def dest? : Line → Option Register
  | .instr op args _ => if op ∈ quietOps then none else args[0]?
  | _ => none

/-- The memory operand of a load or store. -/
def memoryOperand? : Line → Option String
  | .instr op args _ => if op ∈ memoryOps then args[1]? else none
  | _ => none

end Line

/-- No element of an array is at an offset from the stack pointer. -/
lemma address_ne_stackSlot (n m : Int) : address n t0 ≠ stackSlot m := by
  intro h
  have h := congrArg String.toList h
  have ht0 : t0.toList = ['$', 't', '0'] := rfl
  have hsp : sp.toList = ['$', 's', 'p'] := rfl
  rw [stackSlot, toList_address, toList_address, ht0, hsp] at h
  simpa using (List.append_inj' h rfl).2

end Asm

namespace FunctionDef
variable (f : FunctionDef)

/-- Where the return address is: behind the variables. -/
def returnAddress : String := stackSlot (wordSize * f.numVariables : Nat)

/-- The lines that make the frame and save the return address. -/
def openingLines : List Line :=
  [.instr "addiu" [sp, sp, "-" ++ toString (wordSize * (f.numVariables + 1))] none,
    .instr "sw" [ra, f.returnAddress] none]

/-- The lines that end a return. -/
def closingLines : List Line :=
  [.instr "lw" [ra, f.returnAddress] none,
    .instr "addiu" [sp, sp, toString (wordSize * (f.numVariables + 1))] none,
    .instr "jr" [ra] none]

/-- A memory operand is the slot of a declared variable. -/
def IsSlot (a : String) : Prop :=
  ∃ v slot, f.slot? v = some slot ∧ a = stackSlot slot.offset ∧
    ∃ m < f.numVariables, slot.offset = wordSize * m

end FunctionDef

/-- A line leaves the frame as it is: it writes neither the stack pointer nor the return address,
and loads and stores variables and array elements only. -/
structure Asm.Line.KeepsFrame (s : Scope) (l : Line) : Prop where
  dest : l.dest? ≠ some sp ∧ l.dest? ≠ some ra
  operand : ∀ a, l.memoryOperand? = some a →
    s.function.IsSlot a ∨ s.program.isGlobal a = true ∨ ∃ n : Int, a = address n t0
  apart : l.memoryOperand? ≠ some s.function.returnAddress

namespace Emission
variable {P : Line → Prop} {x y : Emission}

lemma forall_lines_andThen (hx : ∀ l ∈ x.lines, P l) (hy : ∀ l ∈ y.lines, P l) :
    ∀ l ∈ (x.andThen y).lines, P l :=
  fun l hl => (mem_lines_andThen hl).elim (hx l) (hy l)

lemma forall_lines_sequence {xs : List Emission} (h : ∀ x ∈ xs, ∀ l ∈ x.lines, P l) :
    ∀ l ∈ (sequence xs).lines, P l := by
  intro l hl
  obtain ⟨x, hx, hl⟩ := mem_lines_sequence hl
  exact h x hx l hl

end Emission

namespace Scope
variable {s : Scope} {loc : Location} {v r x y op src : String} {args : List String}
  {note : Option String}

lemma isSlot_or_isGlobal (h : s.location? v = some loc) :
    s.function.IsSlot loc.operand ∨ s.program.isGlobal loc.operand = true := by
  unfold location? at h
  split at h
  · next hg =>
    cases h
    exact Or.inr hg
  · obtain ⟨slot, hslot, rfl⟩ := Option.map_eq_some_iff.mp h
    obtain ⟨m, hm, hoff⟩ := FunctionDef.exists_index_of_slot? hslot
    have hlt := (List.getElem?_eq_some_iff.mp hm).1
    rw [List.length_append] at hlt
    exact Or.inl ⟨v, slot, hslot, rfl, m, hlt, hoff⟩

lemma ne_returnAddress (h : s.function.IsSlot x ∨ s.program.isGlobal x = true ∨
    ∃ n : Int, x = address n t0) : x ≠ s.function.returnAddress := by
  rcases h with ⟨v, slot, -, rfl, m, hm, hoff⟩ | h | ⟨n, rfl⟩
  · intro h
    have := stackSlot_injective h
    rw [hoff] at this
    unfold wordSize at this
    omega
  · exact Program.ne_stackSlot_of_isGlobal h _
  · exact address_ne_stackSlot n _

/-- A line that touches no memory. -/
lemma keepsFrame_write (hop : op ∉ memoryOps) (hr : r ≠ sp ∧ r ≠ ra) :
    (Line.instr op (r :: args) note).KeepsFrame s := by
  refine ⟨?_, ?_, ?_⟩ <;> simp only [Line.dest?, Line.memoryOperand?, if_neg hop]
  · split <;> simp [hr]
  · simp
  · simp

lemma keepsFrame_comment (text : String) : (Line.comment text).KeepsFrame s :=
  ⟨by simp [Line.dest?], by simp [Line.memoryOperand?], by simp [Line.memoryOperand?]⟩

lemma keepsFrame_label (name : String) : (Line.label name).KeepsFrame s :=
  ⟨by simp [Line.dest?], by simp [Line.memoryOperand?], by simp [Line.memoryOperand?]⟩

/-- A load or store at the place of a variable or an array element. -/
lemma keepsFrame_access (hr : op ∈ quietOps ∨ r ≠ sp ∧ r ≠ ra)
    (hx : s.function.IsSlot x ∨ s.program.isGlobal x = true ∨ ∃ n : Int, x = address n t0) :
    (Line.instr op [r, x] note).KeepsFrame s := by
  have hop : ∀ a, (Line.instr op [r, x] note).memoryOperand? = some a → a = x := by
    intro a ha
    simp only [Line.memoryOperand?] at ha
    split at ha
    · exact (Option.some.inj ha).symm
    · cases ha
  refine ⟨?_, fun a ha => hop a ha ▸ hx, fun h => ?_⟩
  · simp only [Line.dest?]
    split
    · simp
    · next h => simpa using hr.resolve_left h
  · exact ne_returnAddress hx (hop _ h).symm

lemma keepsFrame_load (hr : r ≠ sp ∧ r ≠ ra) : ∀ l ∈ (s.load v r).lines, l.KeepsFrame s := by
  unfold load
  split
  · simp [undeclared]
  · next hloc =>
    refine List.forall_mem_singleton.mpr (keepsFrame_access (Or.inr hr) ?_)
    exact (isSlot_or_isGlobal hloc).imp_right Or.inl

lemma keepsFrame_store : ∀ l ∈ (s.store src v).lines, l.KeepsFrame s := by
  unfold store
  split
  · simp [undeclared]
  · next loc hloc =>
    have haccess : ∀ r note,
        (notedLine note (if loc.isFloat then "s.s" else "sw") [r, loc.operand]).KeepsFrame s :=
      fun r note => keepsFrame_access (Or.inl (by split <;> decide))
        ((isSlot_or_isGlobal hloc).imp_right Or.inl)
    dsimp only
    split
    · exact List.forall_mem_singleton.mpr (haccess _ _)
    · refine List.forall_mem_cons.mpr ⟨?_, List.forall_mem_singleton.mpr (haccess _ _)⟩
      refine keepsFrame_write ?_ ?_ <;> split <;> decide

lemma keepsFrame_computeAndStore (hop : op ∉ memoryOps) :
    ∀ l ∈ (s.computeAndStore op v x y).lines, l.KeepsFrame s := by
  refine Emission.forall_lines_andThen (List.forall_mem_singleton.mpr ?_) keepsFrame_store
  refine keepsFrame_write hop ?_
  split <;> decide

end Scope

/-! ### Actions -/

/-- The lines of an action keep the frame. -/
def Action.KeepsFrame : Action → Prop
  | .emit op args _ =>
    (op ∉ quietOps → ∃ r, args[0]? = some (.text r) ∧ r ≠ sp ∧ r ≠ ra) ∧
      (op ∈ memoryOps → ∃ n : Int, args[1]? = some (.text (address n t0)))
  | .read _ r => r ≠ sp ∧ r ≠ ra
  | .compute op _ _ _ => op ∉ memoryOps
  | _ => True

namespace Placement
variable {q : Placement} {c : Cache} {a : Action} {as : List Action} {l : Line} {n : Nat}
  {es : List (String × Nat)}

lemma saved_ne (n : Nat) : saved n ≠ sp ∧ saved n ≠ ra := ⟨(scratch_sp n).symm, (scratch_ra n).symm⟩

lemma keepsFrame_commentLine {text : String} :
    ∀ l ∈ (commentLine text).lines, l.KeepsFrame q.toScope :=
  List.forall_mem_singleton.mpr (Scope.keepsFrame_comment text)

lemma eq_comment_of_mem_announce {alloc : Allocation} (hl : l ∈ q.announce alloc) :
    ∃ text, l = .comment text := by
  rcases List.mem_cons.mp hl with rfl | hl
  · exact ⟨_, rfl⟩
  · obtain ⟨v, -, rfl⟩ := List.mem_map.mp hl
    split <;> exact ⟨_, rfl⟩

lemma keepsFrame_storeAll : ∀ l ∈ (q.storeAll es).lines, l.KeepsFrame q.toScope := by
  refine Emission.forall_lines_sequence fun x hx => ?_
  obtain ⟨e, -, rfl⟩ := List.mem_map.mp hx
  exact Scope.keepsFrame_store

lemma keepsFrame_loadAll : ∀ l ∈ (q.loadAll es).lines, l.KeepsFrame q.toScope := by
  refine Emission.forall_lines_sequence fun x hx => ?_
  obtain ⟨e, -, rfl⟩ := List.mem_map.mp hx
  exact Scope.keepsFrame_load (saved_ne e.2)

lemma keepsFrame_loadWorkingSet {k : Nat} {b : Block} :
    ∀ l ∈ (q.loadWorkingSet k b).lines, l.KeepsFrame q.toScope := by
  refine Emission.forall_lines_andThen keepsFrame_commentLine ?_
  refine Emission.forall_lines_sequence fun x hx => ?_
  obtain ⟨e, -, rfl⟩ := List.mem_map.mp hx
  exact Emission.forall_lines_andThen keepsFrame_commentLine (Scope.keepsFrame_load (saved_ne e.2))

/-- What an action spells out, with its operands resolved. -/
lemma keepsFrame_emit {op : String} {args : List Operand} {note : Option String}
    (h : (Action.emit op args note).KeepsFrame) :
    (Line.instr op (args.map c.resolve) note).KeepsFrame q.toScope := by
  obtain ⟨hdest, hmem⟩ := h
  have hoperand : ∀ a, (Line.instr op (args.map c.resolve) note).memoryOperand? = some a →
      ∃ n : Int, a = address n t0 := by
    intro a ha
    simp only [Line.memoryOperand?] at ha
    split at ha
    · next hop =>
      obtain ⟨n, hn⟩ := hmem hop
      rw [List.getElem?_map, hn] at ha
      exact ⟨n, (Option.some.inj ha).symm⟩
    · cases ha
  refine ⟨?_, fun a ha => Or.inr (Or.inr (hoperand a ha)), fun h => ?_⟩
  · simp only [Line.dest?]
    split
    · simp
    · next hop =>
      obtain ⟨r, hr, hne⟩ := hdest hop
      rw [List.getElem?_map, hr]
      simpa [Cache.resolve] using hne
  · exact Scope.ne_returnAddress (Or.inr (Or.inr (hoperand _ h))) rfl

lemma keepsFrame_emission (ha : a.KeepsFrame) :
    ∀ l ∈ (q.emission c a).lines, l.KeepsFrame q.toScope := by
  cases a with
  | comment text => exact keepsFrame_commentLine
  | label name => exact List.forall_mem_singleton.mpr (Scope.keepsFrame_label name)
  | emit op args note => exact List.forall_mem_singleton.mpr (keepsFrame_emit ha)
  | enterFunction =>
    rw [emission]
    split
    · intro l hl
      obtain ⟨text, rfl⟩ := eq_comment_of_mem_announce hl
      exact Scope.keepsFrame_comment text
    · simp [Emission.nothing]
  | enterBlock b =>
    rw [emission]
    split
    · exact keepsFrame_loadWorkingSet
    · simp [Emission.nothing]
  | exitBlock b =>
    rw [emission]
    split
    · exact Emission.forall_lines_andThen keepsFrame_commentLine
        (Emission.forall_lines_andThen keepsFrame_storeAll keepsFrame_commentLine)
    · simp [Emission.nothing]
  | save position =>
    rw [emission]
    split
    · exact Emission.forall_lines_andThen keepsFrame_commentLine keepsFrame_storeAll
    · simp [Emission.nothing]
  | restore position =>
    rw [emission]
    split
    · exact Emission.forall_lines_andThen keepsFrame_commentLine keepsFrame_loadAll
    · simp [Emission.nothing]
  | read v r =>
    rw [emission]
    split
    · exact Scope.keepsFrame_load ha
    · split
      · exact List.forall_mem_singleton.mpr (Scope.keepsFrame_write (by decide) ha)
      · simp [Emission.nothing]
  | write src v =>
    rw [emission]
    split
    · exact Scope.keepsFrame_store
    · refine List.forall_mem_singleton.mpr (Scope.keepsFrame_write ?_ (saved_ne _))
      split <;> decide
  | compute op v x y =>
    rw [emission]
    split
    · exact Scope.keepsFrame_computeAndStore ha
    · exact List.forall_mem_singleton.mpr (Scope.keepsFrame_write ha (saved_ne _))
  | fail cause => simp [emission]

lemma keepsFrame_run (has : ∀ a ∈ as, a.KeepsFrame) :
    ∀ l ∈ (q.run c as).lines, l.KeepsFrame q.toScope := by
  intro l hl
  obtain ⟨a, ha, d, hl⟩ := mem_lines_run hl
  exact keepsFrame_emission (has a ha) l hl

end Placement

/-! ### Lowering -/

namespace Scope
variable {s : Scope} {a : Action} {i : Instruction} {v r : String} {n : Nat}

lemma keepsFrame_line {op : String} {args : List String} (hop : op ∉ memoryOps)
    (hr : r ≠ sp ∧ r ≠ ra) : (Action.line op (r :: args)).KeepsFrame :=
  ⟨fun _ => ⟨r, rfl, hr⟩, fun h => absurd h hop⟩

lemma keepsFrame_quiet {op : String} {args : List Operand} {note : Option String}
    (hop : op ∈ quietOps ∧ op ∉ memoryOps) : (Action.emit op args note).KeepsFrame :=
  ⟨fun h => absurd hop.1 h, fun h => absurd h hop.2⟩

/-- A store to an element of an array. -/
lemma keepsFrame_storeElement {src : Operand} {offset : Int} {note : Option String} :
    (Action.emit "sw" [src, .text (address offset t0)] note).KeepsFrame :=
  ⟨fun h => absurd (by decide) h, fun _ => ⟨offset, rfl⟩⟩

lemma keepsFrame_var {isFloat : Bool} (hr : r ≠ sp ∧ r ≠ ra) :
    ∀ a ∈ (Source.var v r isFloat).actions, a.KeepsFrame :=
  List.forall_mem_singleton.mpr hr

lemma keepsFrame_loaded {op : String} {isFloat : Bool} (hop : op ∉ memoryOps)
    (hr : r ≠ sp ∧ r ≠ ra) : ∀ a ∈ (Source.loaded op v r isFloat).actions, a.KeepsFrame :=
  List.forall_mem_singleton.mpr (keepsFrame_line hop hr)

lemma keepsFrame_literal : ∀ a ∈ (Source.literal v).actions, a.KeepsFrame := by
  simp [Source.literal]

lemma keepsFrame_intSource (hr : r ≠ sp ∧ r ≠ ra) :
    ∀ a ∈ (s.intSource v r).actions, a.KeepsFrame := by
  unfold intSource
  split
  · exact keepsFrame_var hr
  · exact keepsFrame_loaded (by decide) hr

lemma keepsFrame_lowerAssign : ∀ a ∈ s.lowerAssign i, a.KeepsFrame := by
  refine List.forall_mem_append.mpr ⟨?_, by simp [Action.KeepsFrame]⟩
  unfold plainSource
  split
  · exact keepsFrame_var (by decide)
  · split
    · exact keepsFrame_var (by decide)
    · exact keepsFrame_literal

lemma keepsFrame_lowerArrayInit : ∀ a ∈ s.lowerArrayInit i, a.KeepsFrame := by
  unfold lowerArrayInit
  split
  · simp [Action.KeepsFrame]
  · refine List.forall_mem_cons.mpr ⟨keepsFrame_line (by decide) (by decide), ?_⟩
    refine List.forall_mem_append.mpr ⟨keepsFrame_intSource (by decide), ?_⟩
    intro a ha
    obtain ⟨k, -, rfl⟩ := List.mem_map.mp ha
    exact keepsFrame_storeElement

lemma keepsFrame_lowerArith (op : Arith) : ∀ a ∈ s.lowerArith op i, a.KeepsFrame := by
  have hop : ∀ isFloat : Bool, op.mnemonic ++ (if isFloat then ".s" else "") ∉ memoryOps := by
    cases op <;> decide
  refine List.forall_mem_append.mpr ⟨List.forall_mem_append.mpr ⟨?_, ?_⟩, ?_⟩
  · unfold leftSource
    split
    · exact keepsFrame_var (by decide)
    · split
      · exact keepsFrame_var (by decide)
      · split <;> exact keepsFrame_loaded (by decide) (by decide)
  · unfold rightSource
    split
    · exact keepsFrame_var (by decide)
    · split
      · exact keepsFrame_var (by decide)
      · split
        · exact keepsFrame_loaded (by decide) (by decide)
        · exact keepsFrame_literal
  · exact List.forall_mem_singleton.mpr (hop _)

lemma keepsFrame_lowerBranch (cmp : Comparison) : ∀ a ∈ s.lowerBranch cmp i, a.KeepsFrame := by
  have hop : cmp.mnemonic ∈ quietOps ∧ cmp.mnemonic ∉ memoryOps := by cases cmp <;> decide
  refine List.forall_mem_append.mpr ⟨List.forall_mem_append.mpr ⟨?_, ?_⟩, ?_⟩
  · exact keepsFrame_intSource (by decide)
  · split
    · exact keepsFrame_var (by decide)
    · exact keepsFrame_literal
  · exact List.forall_mem_singleton.mpr (keepsFrame_quiet hop)

/-- Only a returned value is put in place before a return. -/
lemma keepsFrame_lowerResult : ∀ a ∈ s.lowerResult v, a.KeepsFrame := by
  have hv0 : v0 ≠ sp ∧ v0 ≠ ra := by decide
  have hf0 : f0 ≠ sp ∧ f0 ≠ ra := by decide
  unfold lowerResult
  split
  · simp
  · split
    · exact List.forall_mem_singleton.mpr hv0
    · split
      · exact List.forall_mem_singleton.mpr hf0
      · exact List.forall_mem_singleton.mpr (keepsFrame_line (by decide) hv0)

lemma keepsFrame_lowerArgument {isFloat : Bool} (hr : r ≠ sp ∧ r ≠ ra) :
    ∀ a ∈ s.lowerArgument v r isFloat, a.KeepsFrame := by
  unfold lowerArgument
  split
  · simp
  · split
    · exact List.forall_mem_singleton.mpr hr
    · exact List.forall_mem_singleton.mpr (keepsFrame_line (by cases isFloat <;> decide) hr)

lemma keepsFrame_lowerCall {name x y : String} : ∀ a ∈ s.lowerCall n name x y, a.KeepsFrame := by
  have harg : ∀ (isFloat : Bool) (k : Nat), (if isFloat then f12 else Register.arg k) ≠ sp ∧
      (if isFloat then f12 else Register.arg k) ≠ ra := by
    intro isFloat k
    split
    · decide
    · exact ⟨arg_ne_sp k, arg_ne_of_second rfl (by decide) k⟩
  refine List.forall_mem_append.mpr ⟨List.forall_mem_append.mpr ⟨?_, ?_⟩, ?_⟩
  · exact keepsFrame_lowerArgument (harg _ 0)
  · exact keepsFrame_lowerArgument (harg _ 1)
  · split
    · refine List.forall_mem_cons.mpr ⟨keepsFrame_line (by decide) (by decide), ?_⟩
      exact List.forall_mem_singleton.mpr (keepsFrame_quiet (by decide))
    · refine List.forall_mem_cons.mpr ⟨trivial, List.forall_mem_cons.mpr ⟨?_, ?_⟩⟩
      · exact keepsFrame_quiet (by decide)
      · simp [Action.KeepsFrame]

lemma keepsFrame_elementAddress {array index : String} (hr : r ≠ sp ∧ r ≠ ra) :
    ∀ a ∈ s.elementAddress array index r, a.KeepsFrame := by
  refine List.forall_mem_append.mpr ⟨keepsFrame_intSource hr, ?_⟩
  refine List.forall_mem_cons.mpr ⟨⟨fun _ => ⟨r, rfl, hr⟩, fun h => absurd h (by decide)⟩, ?_⟩
  refine List.forall_mem_cons.mpr ⟨keepsFrame_line (by decide) (by decide), ?_⟩
  exact List.forall_mem_singleton.mpr (keepsFrame_line (by decide) (by decide))

lemma keepsFrame_lowerArrayStore : ∀ a ∈ s.lowerArrayStore i, a.KeepsFrame := by
  refine List.forall_mem_append.mpr ⟨List.forall_mem_append.mpr ⟨?_, ?_⟩, ?_⟩
  · exact List.forall_mem_cons.mpr ⟨trivial, keepsFrame_intSource (by decide)⟩
  · exact keepsFrame_elementAddress (by decide)
  · refine List.forall_mem_cons.mpr ⟨keepsFrame_storeElement, ?_⟩
    simp [Action.KeepsFrame]

lemma keepsFrame_lowerArrayLoad : ∀ a ∈ s.lowerArrayLoad i, a.KeepsFrame := by
  refine List.forall_mem_cons.mpr ⟨trivial, List.forall_mem_append.mpr ⟨?_, ?_⟩⟩
  · exact keepsFrame_elementAddress (by decide)
  · refine List.forall_mem_cons.mpr ⟨⟨fun _ => ⟨t1, rfl, by decide⟩, fun _ => ⟨_, rfl⟩⟩, ?_⟩
    simp [Action.KeepsFrame]

/-- Nothing but a return touches the frame. -/
lemma keepsFrame_lowerInstruction (hi : i.op ≠ .ret) :
    ∀ a ∈ s.lowerInstruction n i, a.KeepsFrame := by
  obtain ⟨op, x, y, z, label⟩ := i
  cases op with
  | assign =>
    simp only [lowerInstruction]
    split
    · exact keepsFrame_lowerAssign
    · exact keepsFrame_lowerArrayInit
  | arith op => exact keepsFrame_lowerArith op
  | goto => exact List.forall_mem_singleton.mpr (keepsFrame_quiet (by decide))
  | branch cmp => exact keepsFrame_lowerBranch cmp
  | ret => exact absurd rfl hi
  | call => exact keepsFrame_lowerCall
  | callr =>
    refine List.forall_mem_append.mpr ⟨keepsFrame_lowerCall, ?_⟩
    simp [lowerCallResult, Action.KeepsFrame]
  | arrayStore => exact keepsFrame_lowerArrayStore
  | arrayLoad => exact keepsFrame_lowerArrayLoad
  | other k => simp [lowerInstruction, Action.KeepsFrame]

lemma keepsFrame_of_isBetween (h : s.IsBetween a) : a.KeepsFrame := by
  rcases h with ⟨l, rfl⟩ | ⟨b, rfl⟩ | ⟨b, rfl⟩ | h
  · trivial
  · trivial
  · trivial
  · obtain ⟨x, -, rfl⟩ := List.mem_map.mp h
    trivial

end Scope

/-! ### Functions -/

/-- A piece belongs to a return. -/
def Piece.IsReturn {α : Type} (x : Piece α) : Prop := ∃ i, x.instruction? = some i ∧ i.op = .ret

lemma Scope.returnSlot_eq_returnAddress (s : Scope) : s.returnSlot = s.function.returnAddress :=
  returnSlot_eq

namespace Placement
variable {q : Placement} {c : Cache} {y : Piece Line}

lemma lines_openFrame : (q.run c q.openFrame).lines = q.function.openingLines := by
  rw [FunctionDef.openingLines, ← Scope.returnSlot_eq_returnAddress]
  rfl

lemma comment_of_mem_enterFunction {l : Line} (hl : l ∈ (q.run c [.enterFunction]).lines) :
    ∃ text, l = .comment text := by
  rw [run_singleton, emission] at hl
  split at hl
  · exact eq_comment_of_mem_announce hl
  · cases hl

lemma lines_lowerReturn {i : Instruction} (h : (q.run c (q.lowerReturn i)).failure = none) :
    (q.run c (q.lowerReturn i)).lines =
      (q.run c (q.lowerResult i.arg1)).lines ++ q.function.closingLines := by
  rw [Scope.lowerReturn] at h ⊢
  obtain ⟨-, hlines⟩ := lines_run_append h
  rw [hlines, FunctionDef.closingLines, ← Scope.returnSlot_eq_returnAddress]
  rfl

/-- Nothing is remembered when the frame has been made. -/
lemma linePieces_eq : q.linePieces = ⟨none, (q.run {} [.enterFunction]).lines⟩ ::
    ⟨none, q.function.openingLines⟩ :: q.perform {} q.framedPieces := by
  rw [← lines_openFrame (c := {})]
  rfl

lemma failure_framedPieces (h : (q.run {} q.lower).failure = none) :
    (q.run {} (q.framedPieces.flatMap Piece.items)).failure = none := by
  have hlower : q.lower =
      (.enterFunction :: q.openFrame) ++ q.framedPieces.flatMap Piece.items := by
    rw [← Scope.items_pieces]
    simp [Scope.pieces]
  rw [hlower] at h
  exact (lines_run_append h).1

/-- Inside of the frame only returns touch it, at their ends. -/
lemma keepsFrame_perform (hf : q.function.Built)
    (h : (q.run c (q.framedPieces.flatMap Piece.items)).failure = none)
    (hy : y ∈ q.perform c q.framedPieces) :
    ∃ kept, (∀ l ∈ kept, l.KeepsFrame q.toScope) ∧
      (y.IsReturn → y.items = kept ++ q.function.closingLines) ∧
      (¬ y.IsReturn → y.items = kept) := by
  obtain ⟨x, hx, d, hok, rfl⟩ := of_mem_perform h hy
  rcases Scope.mem_framedPieces hf hx with ⟨hbetween, hnone⟩ | ⟨n, i, -, rfl⟩
  · refine ⟨(q.run d x.items).lines, ?_, ?_, fun _ => rfl⟩
    · exact keepsFrame_run fun a ha => Scope.keepsFrame_of_isBetween (hbetween a ha)
    · rintro ⟨i, hi, -⟩
      exact absurd (hnone.symm.trans hi) (by simp)
  · by_cases hret : i.op = .ret
    · -- all but the last three lines are those of the returned value
      have hlower : q.lowerInstruction n i = q.lowerReturn i := by
        rw [Scope.lowerInstruction, hret]
      dsimp only at hok ⊢
      rw [hlower] at hok ⊢
      refine ⟨(q.run d (q.lowerResult i.arg1)).lines, ?_, ?_, ?_⟩
      · exact keepsFrame_run Scope.keepsFrame_lowerResult
      · exact fun _ => lines_lowerReturn hok
      · exact fun hnot => absurd ⟨i, rfl, hret⟩ hnot
    · refine ⟨(q.run d (q.lowerInstruction n i)).lines, ?_, ?_, fun _ => rfl⟩
      · exact keepsFrame_run (Scope.keepsFrame_lowerInstruction hret)
      · rintro ⟨j, hj, hjret⟩
        cases hj
        exact absurd hjret hret

end Placement

/-- A function makes a frame of a word for each declared variable and one for the return address,
which it saves there, and every return undoes this at its end. No other line writes the stack
pointer or the return address, or touches the word in which it is saved: loads and stores are at
the slots of declared variables, at global variables and at elements of arrays. -/
theorem generate_keeps_frame {text : String} {p : Program} {f : Function} {g : Strategy}
    {a : Asm.Function} (hp : (readProgram text).result = .ok p) (hf : f ∈ p.functions)
    (ha : (Session.generate { program := p, strategy := g } f).2 = .ok a) :
    ∃ announced framed,
      (g.place ⟨p, f⟩).linePieces = announced :: ⟨none, f.openingLines⟩ :: framed ∧
      a.lines = (g.place ⟨p, f⟩).linePieces.flatMap Piece.items ∧
      (∀ l ∈ announced.items, ∃ text, l = .comment text) ∧
      framed.filterMap Piece.instruction? = f.code ∧
      ∀ x ∈ framed, ∃ kept, (∀ l ∈ kept, l.KeepsFrame ⟨p, f⟩) ∧
        (x.IsReturn → x.items = kept ++ f.closingLines) ∧ (¬ x.IsReturn → x.items = kept) := by
  obtain ⟨d, hd, -⟩ := exists_build_of_readProgram hp hf
  obtain ⟨hok, hlines⟩ := Session.pieces_of_generate ha
  have hbuilt : (g.place ⟨p, f⟩).function.Built := d.built_of_build hd
  refine ⟨_, _, Placement.linePieces_eq, hlines, ?_, ?_, ?_⟩
  · exact fun l hl => Placement.comment_of_mem_enterFunction hl
  · exact Placement.instructions_perform.trans (Scope.instructions_framedPieces hbuilt)
  · exact fun x hx => Placement.keepsFrame_perform hbuilt (Placement.failure_framedPieces hok) hx

/-- The loop with three variables has a frame of four words, also around its call, and its return
undoes it. -/
theorem generate_keeps_frame_countdown :
    (readProgram countdownText).result = .ok countdownProgram ∧
    ∃ a, (Session.generate { program := countdownProgram, strategy := .perFunction 2 }
        countdownFunction).2 = .ok a ∧
      ∃ announced framed : List Line, ∃ x kept,
        a.lines = announced ++ .instr "addiu" ["$sp", "$sp", "-16"] none ::
          .instr "sw" ["$ra", "12($sp)"] none :: framed ∧
        x ∈ ((Strategy.perFunction 2).place countdownScope).linePieces ∧ x.IsReturn ∧
        x.items = kept ++ [.instr "lw" ["$ra", "12($sp)"] none,
          .instr "addiu" ["$sp", "$sp", "16"] none, .instr "jr" ["$ra"] none] ∧
        ∀ l ∈ kept, l.KeepsFrame countdownScope := by
  let s : Session := { program := countdownProgram, strategy := .perFunction 2 }
  have hfail : (s.emissionOf countdownFunction).failure = none := by decide +kernel
  have hgen := congrArg Prod.snd (Session.generate_of_failure_eq_none rfl hfail)
  obtain ⟨announced, framed, hpieces, hlines, -, hcode, hframed⟩ :=
    generate_keeps_frame readProgram_countdown mem_countdownProgram hgen
  have hret : ∃ i ∈ countdownFunction.code, i.op = .ret := by decide +kernel
  obtain ⟨i, hi, hret⟩ := hret
  rw [← hcode] at hi
  obtain ⟨x, hx, hxi⟩ := List.mem_filterMap.mp hi
  obtain ⟨kept, hkept, hitems, -⟩ := hframed x hx
  have hopening : countdownFunction.openingLines = [.instr "addiu" ["$sp", "$sp", "-16"] none,
      .instr "sw" ["$ra", "12($sp)"] none] := by
    decide +kernel
  have hclosing : countdownFunction.closingLines = [.instr "lw" ["$ra", "12($sp)"] none,
      .instr "addiu" ["$sp", "$sp", "16"] none, .instr "jr" ["$ra"] none] := by
    decide +kernel
  refine ⟨readProgram_countdown, _, hgen, announced.items, framed.flatMap Piece.items, x, kept,
    ?_, ?_, ⟨i, hxi, hret⟩, ?_, hkept⟩
  · rw [hlines, hpieces, hopening]
    simp
  · rw [hpieces]
    simp [hx]
  · rw [hitems ⟨i, hxi, hret⟩, hclosing]

/-- A function that stores to a variable. -/
def storing (name v : String) : FunctionDef where
  name := name
  ints := [v]
  code := [{ op := .assign, arg1 := v, arg2 := "7" }, { op := .ret }]

def storingLines (name v : String) : List String :=
  ["#start_function ", name, "\nint ", name, "()\nint-list: ", v, "\nassign, ", v,
    ", 7\nreturn\n#end_function\n"]

/-- Two functions with a variable that is spelled like a stack slot. -/
def spelledProgram : Program :=
  .ofFunctions (["f", "g"].filterMap fun name => (storing name "+4($sp)").build.toOption)

def spelledLines : List String := storingLines "f" "+4($sp)" ++ storingLines "g" "+4($sp)"

def spelledText : String := String.ofList (spelledLines.flatMap String.toList)

/-- As a global variable it is addressed by its name, which stands for the word where the return
address is saved and is the slot of no variable. -/
theorem store_beside_slots :
    (readProgram spelledText).result = .ok spelledProgram ∧
    ∃ f ∈ spelledProgram.functions, f.returnAddress = "4($sp)" ∧ ¬ f.IsSlot "+4($sp)" ∧
      ∃ a, (Session.generate { program := spelledProgram, strategy := .memory } f).2 = .ok a ∧
        .instr "sw" ["$t0", "+4($sp)"] (some "store to +4($sp)") ∈ a.lines := by
  have hread : (readProgram spelledText).result = .ok spelledProgram := by
    have h : spelledText.toList = spelledLines.flatMap String.toList := String.toList_ofList
    unfold readProgram
    rw [h]
    decide +kernel
  have hfunction : ∃ f ∈ spelledProgram.functions, f.returnAddress = "4($sp)" ∧
      (Session.emissionOf { program := spelledProgram, strategy := .memory } f).failure = none ∧
      .instr "sw" ["$t0", "+4($sp)"] (some "store to +4($sp)") ∈
        (Session.emissionOf { program := spelledProgram, strategy := .memory } f).lines := by
    decide +kernel
  obtain ⟨f, hf, haddress, hfail, hline⟩ := hfunction
  have hgen := congrArg Prod.snd (Session.generate_of_failure_eq_none rfl hfail)
  refine ⟨hread, f, hf, haddress, ?_, _, hgen, hline⟩
  rintro ⟨v, slot, -, heq, -⟩
  have himm : isImmediate "+4($sp)" = true := heq ▸ isImmediate_stackSlot slot.offset
  exact absurd himm (by decide +kernel)

end MipsBackend

import MipsBackend.Proofs.Writing

/-! Which instructions have a text. An instruction is read back from its written form exactly if it
can be read at all, whatever the line looks like: its opcode belongs to the code format, it has no
label, and its operands are bare. -/
namespace MipsBackend.Instruction
variable {i : Instruction} {a : String} {c : Char} {line : List Char}

/-- An operand without commas that has no space, tab or carriage return at either end. -/
structure IsBare (a : String) : Prop where
  comma : ',' ∉ a.toList
  first : ∀ c ∈ a.toList.head?, c ∉ [' ', '\t', '\r']
  last : ∀ c ∈ a.toList.getLast?, c ∉ [' ', '\t', '\r']

lemma isPadding_iff : isPadding c = true ↔ c = ',' ∨ c ∈ [' ', '\t', '\r'] := by
  simp only [isPadding, Bool.or_eq_true, beq_iff_eq, List.mem_cons, List.not_mem_nil, or_false]
  tauto

lemma IsBare.trimBy_eq (h : IsBare a) : Text.trimBy isPadding a.toList = a.toList := by
  refine Text.trimBy_of_ends (fun c hc => ?_) fun c hc => ?_
  · refine Bool.eq_false_iff.mpr fun hpad => ?_
    rcases isPadding_iff.mp hpad with rfl | hpad
    · exact h.comma (List.mem_of_mem_head? hc)
    · exact h.first c hc hpad
  · refine Bool.eq_false_iff.mpr fun hpad => ?_
    rcases isPadding_iff.mp hpad with rfl | hpad
    · exact h.comma (List.mem_of_mem_getLast? hc)
    · exact h.last c hc hpad

/-- What is read between commas is bare. -/
lemma isBare_field (line : List Char) (n : Nat) : IsBare (field (Text.pieces ',' line) n) := by
  have hpiece : ',' ∉ (Text.pieces ',' line).getD n [] := by
    rw [List.getD_eq_getElem?_getD]
    cases hn : (Text.pieces ',' line)[n]? with
    | none => exact List.not_mem_nil
    | some q => exact Text.not_mem_of_mem_piecesFrom List.not_mem_nil (List.mem_of_getElem? hn)
  have hend : ∀ c, isPadding c = false → c ∉ [' ', '\t', '\r'] := fun c hpad hc =>
    Bool.false_ne_true (hpad.symm.trans (isPadding_iff.mpr (Or.inr hc)))
  constructor
  · rw [field, String.toList_ofList]
    exact fun hc => hpiece (Text.mem_of_mem_trimBy hc)
  · rw [field, String.toList_ofList]
    exact fun c hc => hend c (Text.of_mem_head?_trimBy hc)
  · rw [field, String.toList_ofList]
    exact fun c hc => hend c (Text.of_mem_getLast?_trimBy hc)

/-- What is known of an instruction that has been read. -/
lemma isBare_of_ofChars (h : ofChars line = .ok i) :
    i.op.isKnown = true ∧ i.label = none ∧ ∀ a ∈ i.args, IsBare a := by
  simp only [ofChars] at h
  split at h
  · cases h
  · next op hop =>
    cases h
    refine ⟨Opcode.isKnown_of_ofName? hop, rfl, fun a ha => ?_⟩
    simp only [args, List.mem_cons, List.not_mem_nil, or_false] at ha
    rcases ha with rfl | rfl | rfl <;> exact isBare_field line _

/-- The text of an instruction is read back as that instruction exactly if any line at all is read
as it, and exactly if its opcode belongs to the code format, it has no label, and its operands,
empty ones between others included, have no commas and no space, tab or carriage return at either
end. -/
theorem ofText_text_iff (i : Instruction) :
    (ofText i.text = .ok i ↔ ∃ line, ofText line = .ok i) ∧
    (ofText i.text = .ok i ↔
      i.op.isKnown = true ∧ i.label = none ∧ ∀ a ∈ i.args, IsBare a) := by
  have hback : (i.op.isKnown = true ∧ i.label = none ∧ ∀ a ∈ i.args, IsBare a) →
      ofText i.text = .ok i := by
    rintro ⟨hop, hlabel, hargs⟩
    rw [ofText, ofChars_text hop fun a ha => ⟨(hargs a ha).comma, (hargs a ha).trimBy_eq⟩, ← hlabel]
  refine ⟨⟨fun h => ⟨i.text, h⟩, ?_⟩, isBare_of_ofChars, hback⟩
  rintro ⟨line, hline⟩
  exact hback (isBare_of_ofChars hline)

example : ({ op := .assign, arg3 := "x" } : Instruction).text = "assign, , , x" ∧
    ofText "assign, , , x" = .ok { op := .assign, arg3 := "x" } := by decide +kernel

end MipsBackend.Instruction

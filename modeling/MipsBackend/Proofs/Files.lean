import Mathlib.Data.List.Infix
import MipsBackend.Directory
import MipsBackend.Program.Listing
import MipsBackend.Proofs.Collections
import MipsBackend.Proofs.Cutting

/-! Files as a command sees them. A file is only ever made inside of a folder and never in the place
of one, so writing it changes no other file and every path leads where it led before. What is
written in parts ends up as if it had been written at once. -/
namespace MipsBackend

namespace Directory
variable {d d' : Directory} {folder place n x : List Char} {ns : List (List Char)}
  {path p q text content : String} {C : String → Prop}

/-- A name as it can stand between slashes. -/
def IsName (n : List Char) : Prop := n ≠ [] ∧ '/' ∉ n

lemma isName_of_mem_names {cs : List Char} (h : n ∈ names cs) : IsName n := by
  obtain ⟨hmem, hne⟩ := List.mem_filter.mp h
  have hne : n ≠ [] ∧ n ≠ ['.'] := by simpa using hne
  exact ⟨hne.1, Text.not_mem_of_mem_piecesFrom List.not_mem_nil hmem⟩

/-! ### Folders on the way -/

lemma isFolder_iff : d.isFolder x = true ↔ String.ofList x ∈ d.folders ∨
    x ++ ['/'] <+: d.base ∨ ∃ f ∈ d.files.keys, x ++ ['/'] <+: f.toList := by
  have hstart : ∀ cs : List Char, (Text.afterStart? (x ++ ['/']) cs).isSome = true ↔
      x ++ ['/'] <+: cs := by
    intro cs
    rw [Option.isSome_iff_exists]
    apply exists_congr
    intro r
    rw [Text.afterStart?_eq_some, eq_comm]
  rw [isFolder, Bool.or_eq_true, Bool.or_eq_true, List.any_eq_true, OrdSet.contains_iff, or_assoc]
  simp only [hstart, OrdSet.mem_toList]

/-- What stands before the slashes of a place are folders. -/
def Rooted (d : Directory) (place : List Char) : Prop :=
  ∀ x, x ≠ [] → x ++ ['/'] <+: place → d.isFolder x = true

lemma rooted_nil : d.Rooted [] := by
  intro x _ h
  simp at h

lemma rooted_base : d.Rooted d.base := fun _ _ h => isFolder_iff.mpr (Or.inr (Or.inl h))

/-- A slash is not looked for in a name. -/
lemma prefix_of_prefix_append (hn : '/' ∉ n) (h : x ++ ['/'] <+: folder ++ n) :
    x ++ ['/'] <+: folder := by
  rcases List.prefix_or_prefix_of_prefix h (List.prefix_append folder n) with hle | ⟨r, hr⟩
  · exact hle
  · cases r using List.reverseRecOn with
    | nil =>
      rw [List.append_nil] at hr
      rw [hr]
    | append_singleton r c =>
      -- the slash would be a character of the name
      rw [← hr, List.prefix_append_right_inj] at h
      have hc : c = '/' := by
        rw [← List.append_assoc] at hr
        exact List.singleton_inj.mp (List.append_inj' hr rfl).2
      rw [hc] at h
      exact absurd (h.subset (by simp)) hn

lemma Rooted.append (h : d.Rooted folder) (hn : '/' ∉ n) : d.Rooted (folder ++ n) :=
  fun x hx hle => h x hx (prefix_of_prefix_append hn hle)

lemma Rooted.enter (h : d.Rooted folder) (hn : '/' ∉ n) (hf : d.isFolder (folder ++ n) = true) :
    d.Rooted (folder ++ n ++ ['/']) := by
  intro x hx hle
  rcases List.prefix_concat_iff.mp hle with heq | hle
  · rw [List.append_cancel_right heq]
    exact hf
  · exact h.append hn x hx hle

lemma parent_prefix : parent folder <+: folder := by
  rw [parent, ← List.reverse_suffix, List.reverse_reverse]
  exact (List.dropWhile_suffix _).trans (List.drop_suffix 1 _)

lemma Rooted.parent (h : d.Rooted folder) : d.Rooted (parent folder) :=
  fun x hx hle => h x hx (hle.trans parent_prefix)

/-- A path ends inside of folders only, at a place that is none. -/
lemma rooted_of_follow (hns : ∀ n ∈ ns, IsName n) (hfolder : d.Rooted folder)
    (h : d.follow folder ns = .ok p) : d.Rooted p.toList ∧ d.isFolder p.toList = false := by
  fun_induction follow d folder ns with
  | case1 => cases h
  | case2 => cases h
  | case3 => cases h
  | case4 folder n _ hplace =>
    cases h
    rw [String.toList_ofList]
    rw [not_or, Bool.not_eq_true] at hplace
    exact ⟨hfolder.append (hns n List.mem_cons_self).2, hplace.2⟩
  | case5 => cases h
  | case6 folder m ns _ ih =>
    exact ih (fun k hk => hns k (List.mem_cons_of_mem _ hk)) hfolder.parent h
  | case7 => cases h
  | case8 folder n m ns _ _ _ _ hf ih =>
    apply ih (fun k hk => hns k (List.mem_cons_of_mem _ hk)) ?_ h
    exact hfolder.enter (hns n List.mem_cons_self).2 hf
  | case9 => cases h

/-- Names lead to the same place in a directory with the same folders, if its new files stand where
no folder is. -/
lemma follow_iff (hfolders : ∀ x, x ≠ [] → d'.isFolder x = d.isFolder x)
    (hkept : ∀ x, d.files.contains x = true → d'.files.contains x = true)
    (hnew : ∀ x, d'.files.contains x = true →
      d.files.contains x = true ∨ d.isFolder x.toList = false)
    (hns : ∀ n ∈ ns, IsName n) : d'.follow folder ns = .ok q ↔ d.follow folder ns = .ok q := by
  induction ns generalizing folder with
  | nil => rfl
  | cons n ns ih =>
    have hne : folder ++ n ≠ [] := by simp [(hns n List.mem_cons_self).1]
    cases ns with
    | nil => rw [follow, follow, hfolders _ hne]
    | cons m ns =>
      have hrest : ∀ k ∈ m :: ns, IsName k := fun k hk => hns k (List.mem_cons_of_mem n hk)
      rw [follow, follow, hfolders _ hne]
      by_cases hlong : 255 < (String.ofList n).utf8ByteSize
      · rw [if_pos hlong, if_pos hlong]
      rw [if_neg hlong, if_neg hlong]
      by_cases hup : n = upward
      · rw [if_pos hup, if_pos hup]
        exact ih hrest
      rw [if_neg hup, if_neg hup]
      by_cases hfile : d'.files.contains (String.ofList (folder ++ n)) = true
      · -- a file in the way: it was there before, or there was nothing to go on to
        rw [if_pos hfile]
        rcases hnew _ hfile with hold | hnone
        · rw [if_pos hold]
        · rw [String.toList_ofList] at hnone
          rw [hnone]
          split <;> simp
      · have hold : ¬ d.files.contains (String.ofList (folder ++ n)) = true :=
          fun h => hfile (hkept _ h)
        rw [if_neg hfile, if_neg hold]
        split
        · exact ih hrest
        · rfl

/-! ### Paths -/

/-- The text of a path decides whether it is followed from the outermost folder or from the working
directory, or leads to no file. -/
lemma locate_cases (path : String) :
    (∀ (d : Directory) (p : String), d.locate path ≠ .ok p) ∨
      (∃ cs, ∀ d : Directory, d.locate path = d.follow [] (names cs)) ∨
      ∃ cs, ∀ d : Directory, d.locate path = d.follow d.base (names cs) := by
  unfold locate
  split
  · exact Or.inl fun d p h => by cases h
  · split
    · exact Or.inl fun d p h => by cases h
    · next cs _ => exact Or.inr (Or.inl ⟨cs, fun d => rfl⟩)
    · next cs _ _ => exact Or.inr (Or.inr ⟨_, fun d => rfl⟩)

lemma rooted_of_locate (h : d.locate path = .ok p) :
    d.Rooted p.toList ∧ d.isFolder p.toList = false := by
  rcases locate_cases path with hnone | ⟨cs, hfollow⟩ | ⟨cs, hfollow⟩
  · exact absurd h (hnone d p)
  · exact rooted_of_follow (fun n hn => isName_of_mem_names hn) rooted_nil (hfollow d ▸ h)
  · exact rooted_of_follow (fun n hn => isName_of_mem_names hn) rooted_base (hfollow d ▸ h)

/-- The directory with a file that has been written. -/
def put (d : Directory) (p content : String) : Directory :=
  { d with files := d.files.insert p content }

lemma isFolder_put (h : d.locate path = .ok p) (hx : x ≠ []) :
    (d.put p content).isFolder x = d.isFolder x := by
  rw [Bool.eq_iff_iff, isFolder_iff, put, OrdMap.keys_insert]
  constructor
  · rintro (hfolder | hbase | ⟨f, hf, hle⟩)
    · exact isFolder_iff.mpr (Or.inl hfolder)
    · exact isFolder_iff.mpr (Or.inr (Or.inl hbase))
    · rcases OrdSet.mem_insert.mp hf with rfl | hf
      · exact (rooted_of_locate h).1 x hx hle
      · exact isFolder_iff.mpr (Or.inr (Or.inr ⟨f, hf, hle⟩))
  · intro hfolder
    rcases isFolder_iff.mp hfolder with hfolder | hbase | ⟨f, hf, hle⟩
    · exact Or.inl hfolder
    · exact Or.inr (Or.inl hbase)
    · exact Or.inr (Or.inr ⟨f, OrdSet.mem_insert.mpr (Or.inr hf), hle⟩)

/-- Every path leads to the same file when one has been written. -/
lemma locate_put (h : d.locate path = .ok p) {other : String} :
    (d.put p content).locate other = .ok q ↔ d.locate other = .ok q := by
  have hfiles : ∀ x, (d.put p content).files.contains x = true ↔
      x = p ∨ d.files.contains x = true := by
    intro x
    rw [OrdMap.contains_iff, OrdMap.contains_iff, put, OrdMap.keys_insert, OrdSet.mem_insert]
  have hsame : ∀ {folder cs}, (d.put p content).follow folder (names cs) = .ok q ↔
      d.follow folder (names cs) = .ok q := by
    intro folder cs
    apply follow_iff (fun x hx => isFolder_put h hx) ?_ ?_ fun n hn => isName_of_mem_names hn
    · intro x hx
      exact (hfiles x).mpr (Or.inr hx)
    · intro x hx
      rcases (hfiles x).mp hx with rfl | hx
      · exact Or.inr (rooted_of_locate h).2
      · exact Or.inl hx
  rcases locate_cases other with hnone | ⟨cs, hfollow⟩ | ⟨cs, hfollow⟩
  · exact iff_of_false (hnone _ q) (hnone d q)
  · rw [hfollow, hfollow]
    exact hsame
  · rw [hfollow, hfollow]
    exact hsame

/-! ### Reading and writing -/

/-- A file can be written under a path, and `p` is its plain path. -/
structure Accepts (d : Directory) (path p : String) : Prop where
  locate : d.locate path = .ok p
  ending : path.toList.getLast? ≠ some '/'
  writable : p ∉ d.unwritable

/-- It does not matter whether the room is used up at once or in parts. -/
lemma fitting_append :
    d.fitting p (d.fitting p text ++ content) = d.fitting p (text ++ content) := by
  unfold fitting
  split
  · rw [String.toList_append, String.toList_append, String.toList_ofList, List.take_append,
      List.take_append, List.take_take, Nat.min_self]
    congr 2
    rw [List.length_take]
    congr 1
    omega
  · rfl

/-- In `d'` only the files at `C` are other ones than in `d`, and paths lead to the same files. -/
structure Keeps (d : Directory) (C : String → Prop) (d' : Directory) : Prop where
  others : d' = { d with files := d'.files }
  files : ∀ x, ¬ C x → d'.files.get? x = d.files.get? x
  locate : ∀ path x, d'.locate path = .ok x ↔ d.locate path = .ok x

namespace Keeps

lemma refl (d : Directory) (C : String → Prop) : d.Keeps C d :=
  ⟨rfl, fun _ _ => rfl, fun _ _ => Iff.rfl⟩

lemma mono {C' : String → Prop} (h : d.Keeps C d') (hC : ∀ x, C x → C' x) : d.Keeps C' d' :=
  ⟨h.others, fun x hx => h.files x fun hx' => hx (hC x hx'), h.locate⟩

lemma fitting (h : d.Keeps C d') : d'.fitting = d.fitting := by
  rw [h.others]
  rfl

lemma put (h : d.Keeps C d') (hp : d.locate path = .ok p) (hC : C p) :
    d.Keeps C (d'.put p content) := by
  refine ⟨?_, fun x hx => ?_, fun other x => ?_⟩
  · rw [Directory.put, h.others]
  · have hne : x ≠ p := by
      intro heq
      rw [heq] at hx
      exact hx hC
    rw [Directory.put, OrdMap.get?_insert, if_neg hne]
    exact h.files x hx
  · rw [locate_put ((h.locate path p).mpr hp)]
    exact h.locate other x

lemma append (h : d.Keeps C d') (hC : ∀ p, d.locate path = .ok p → C p) :
    d.Keeps C (d'.append path text) := by
  unfold Directory.append
  split
  · exact h
  · next p hp =>
    have hp := (h.locate path p).mp hp
    exact h.put hp (hC p hp)

/-- Lines that are written one after the other make up a text, as far as there is room. -/
lemma appendLines (h : d.Keeps C d') (hp : d.locate path = .ok p) (hC : C p)
    (hcontent : d'.files.get? p = some (d.fitting p content)) (lines : List String) :
    d.Keeps C (d'.appendLines path lines) ∧ (d'.appendLines path lines).files.get? p =
      some (d.fitting p (content ++ unlines lines)) := by
  induction lines generalizing d' content with
  | nil =>
    refine ⟨h, ?_⟩
    rw [unlines, List.map_nil, String.join_nil, String.append_empty]
    exact hcontent
  | cons line lines ih =>
    have hget : (d'.append path (line ++ "\n")).files.get? p =
        some (d.fitting p (content ++ (line ++ "\n"))) := by
      rw [Directory.append, (h.locate path p).mpr hp]
      dsimp only
      rw [OrdMap.get?_alter, if_pos rfl, OrdMap.getD, hcontent, Option.getD_some, h.fitting,
        fitting_append]
    have hC' : ∀ x, d.locate path = .ok x → C x := by
      intro x hx
      rw [hp] at hx
      cases hx
      exact hC
    obtain ⟨hkeeps, htext⟩ := ih (h.append hC') hget
    refine ⟨hkeeps, ?_⟩
    rw [String.append_assoc] at htext
    rw [unlines, List.map_cons, String.join_cons]
    exact htext

end Keeps
end Directory
end MipsBackend

import LineScript.Proofs.WellFormed

/-!
The forms of structural commands exclude each other. Main statement: at most one form takes a line,
so the order in which they are tried makes no difference, and nor do blanks around the line.
-/

namespace LineScript

variable {s line before after : Text} {c d : Command} {i : Nat}

namespace Command

namespace Form

variable {form other : Text → Option Command}

/-- A setting whose value is not a bracketed name is no copy. -/
theorem copy?_of_assign? (h : assign? s = some c) : copy? s = none := by
  obtain ⟨⟨target, value⟩, hset, hvalue⟩ := Option.bind_eq_some_iff.1 h
  dsimp only at hvalue
  split at hvalue
  · cases hvalue
  · rename_i hneither
    have hname : bracketedName? value = none := by simpa using (not_or.1 hneither).2
    rw [copy?, hset]
    simp [hname]

/-- The first four characters of each form, with the place of the form among the others. -/
def openings : List (Text × Nat) :=
  [("::ex".toList, 0), ("::qu".toList, 0), ("::st".toList, 1), ("::en".toList, 2),
    ("::ru".toList, 3), ("::se".toList, 4), ("::if".toList, 6), ("::wt".toList, 7)]

/-- The place of the only form that the text can be in: its first four characters tell, but a copy
begins like an assignment. -/
def place? (s : Text) : Option Nat :=
  (openings.lookup (s.take 4)).map fun i => if i = 4 ∧ (copy? s).isSome then 5 else i

theorem place?_of_form (hi : structural[i]? = some form) (h : form s = some c) :
    place? s = some i := by
  rw [← List.mk_mem_zipIdx_iff_getElem?] at hi
  simp only [structural, List.zipIdx_cons, List.zipIdx_nil, List.mem_cons, Prod.mk.injEq,
    List.not_mem_nil, or_false] at hi
  rcases hi with ⟨rfl, rfl⟩ | ⟨rfl, rfl⟩ | ⟨rfl, rfl⟩ | ⟨rfl, rfl⟩ | ⟨rfl, rfl⟩ | ⟨rfl, rfl⟩ |
    ⟨rfl, rfl⟩ | ⟨rfl, rfl⟩
  · unfold halt? at h
    split at h
    · rename_i hs
      rcases hs with rfl | rfl <;> rfl
    · cases h
  · obtain ⟨block, hblock, _⟩ := Option.map_eq_some_iff.1 h
    obtain ⟨rfl, _⟩ := bracketed_after?_eq_some.1 hblock
    rfl
  · unfold leave? at h
    split at h
    · rename_i hs
      subst hs
      rfl
    · cases h
  · obtain ⟨block, hblock, _⟩ := Option.map_eq_some_iff.1 h
    obtain ⟨rfl, _⟩ := bracketed_after?_eq_some.1 hblock
    rfl
  · -- A copy has the same opening, so it has to be ruled out by the value.
    have hcopy := copy?_of_assign? h
    obtain ⟨_, hset, _⟩ := Option.bind_eq_some_iff.1 h
    obtain ⟨body, hbody, _⟩ := Option.bind_eq_some_iff.1 hset
    obtain rfl := Text.after?_eq_some.1 hbody
    rw [place?, hcopy]
    rfl
  · obtain ⟨_, hset, _⟩ := Option.bind_eq_some_iff.1 h
    obtain ⟨body, hbody, _⟩ := Option.bind_eq_some_iff.1 hset
    obtain rfl := Text.after?_eq_some.1 hbody
    rw [place?, h]
    rfl
  · obtain ⟨body, hbody, _⟩ := Option.bind_eq_some_iff.1 h
    obtain rfl := Text.after?_eq_some.1 hbody
    rfl
  · obtain ⟨value, hvalue, _⟩ := Option.bind_eq_some_iff.1 h
    obtain rfl := Text.between?_eq_some.1 hvalue
    rfl

theorem structural_exclusive (s : Text) :
    structural.Pairwise fun form other => form s = none ∨ other s = none := by
  rw [List.pairwise_iff_getElem]
  intro i j hi hj hlt
  by_contra hboth
  obtain ⟨hform, hother⟩ := not_or.1 hboth
  obtain ⟨c, hc⟩ := Option.ne_none_iff_exists'.1 hform
  obtain ⟨d, hd⟩ := Option.ne_none_iff_exists'.1 hother
  have hplace := place?_of_form (List.getElem?_eq_getElem hi) hc
  rw [place?_of_form (List.getElem?_eq_getElem hj) hd] at hplace
  cases hplace
  exact Nat.lt_irrefl _ hlt

/-- Two forms that take a text are the same, and so are the commands. -/
theorem eq_of_structural (hf : form ∈ structural) (ho : other ∈ structural) (hc : form s = some c)
    (hd : other s = some d) : c = d := by
  obtain ⟨i, hi⟩ := List.mem_iff_getElem?.1 hf
  obtain ⟨j, hj⟩ := List.mem_iff_getElem?.1 ho
  have hplace := place?_of_form hi hc
  rw [place?_of_form hj hd] at hplace
  cases hplace
  rw [hi] at hj
  cases hj
  rw [hc] at hd
  exact Option.some.inj hd

theorem findSome?_perm {order : List (Text → Option Command)} (h : order.Perm structural)
    (s : Text) : (order.findSome? fun form => form s) = structural? s := by
  cases hs : structural? s with
  | none =>
    refine List.findSome?_eq_none_iff.2 ?_
    intro form hform
    exact List.findSome?_eq_none_iff.1 hs form (h.mem_iff.1 hform)
  | some c =>
    obtain ⟨form, hform, hc⟩ := List.exists_of_findSome?_eq_some hs
    cases ho : order.findSome? fun form => form s with
    | none =>
      rw [List.findSome?_eq_none_iff.1 ho form (h.mem_iff.2 hform)] at hc
      cases hc
    | some d =>
      obtain ⟨other, hother, hd⟩ := List.exists_of_findSome?_eq_some ho
      rw [eq_of_structural hform (h.mem_iff.1 hother) hc hd]

end Form

/-- The command on a line, where the forms are tried in the given order. -/
def readTrying (order : List (Text → Option Command)) (line : Text) : Option Command :=
  if isComment line then none
  else some ((order.findSome? fun form => form (Text.trim line)).getD
    (ofTemplate (Template.read line)))

theorem readTrying_perm {order : List (Text → Option Command)} (h : order.Perm Form.structural)
    (line : Text) : readTrying order line = read? line := by
  rw [readTrying, Form.findSome?_perm h, read?]

/-- Blanks do not make a comment of what is none: they are not all that there is, and they hide what
stands at the front. -/
theorem isComment_between_blank (h : isComment line = false)
    (hbefore : Text.isAllBlank before = true) :
    isComment (before ++ line ++ after) = false := by
  obtain ⟨hblank, hhead⟩ := Bool.or_eq_false_iff.1 h
  have hall : Text.isAllBlank (before ++ line ++ after) = false := by
    simp only [Text.isAllBlank, List.all_append, Bool.and_eq_false_iff] at hblank ⊢
    exact .inl (.inr hblank)
  rw [isComment, hall, Bool.false_or]
  cases before with
  | nil =>
    cases line with
    | nil => cases hblank
    | cons first rest => exact hhead
  | cons first rest =>
    have hfirst : isBlank first = true := List.all_eq_true.1 hbefore first List.mem_cons_self
    refine decide_eq_false ?_
    rintro ⟨rfl⟩
    revert hfirst
    decide

theorem read?_between_blank (h : read? line = some c) (hs : c.isStructural = true)
    (hbefore : Text.isAllBlank before = true) (hafter : Text.isAllBlank after = true) :
    read? (before ++ line ++ after) = some c := by
  obtain ⟨hcomment, hform⟩ := structural?_of_read? h hs
  rw [read?, isComment_between_blank hcomment hbefore, Text.trim_between_blank hbefore hafter,
    hform]
  rfl

end Command

/-- At most one form takes a line without the blanks around it, so that the line gives the same
command in whatever order the forms are tried; and a structural command stays what it is with any
blanks before and after it. -/
theorem forms_exclude_each_other (line : Text) :
    (Command.Form.structural.Pairwise fun form other =>
      form (Text.trim line) = none ∨ other (Text.trim line) = none) ∧
    (∀ order, order.Perm Command.Form.structural →
      Command.readTrying order line = Command.read? line) ∧
    ∀ c, Command.read? line = some c → c.isStructural = true → ∀ before after,
      Text.isAllBlank before = true → Text.isAllBlank after = true →
      Command.read? (before ++ line ++ after) = some c := by
  refine ⟨Command.Form.structural_exclusive _, ?_, ?_⟩
  · intro order horder
    exact Command.readTrying_perm horder line
  · intro c hread hs before after hbefore hafter
    exact Command.read?_between_blank hread hs hbefore hafter

/-- A copy, written as closely as it can be. -/
def tightCopy : Text := "::set [a]=[b]".toList

theorem tightCopy_is_only_a_copy :
    Command.Form.structural.reverse.Perm Command.Form.structural ∧
      Command.read? tightCopy = some (.copy ['a'] ['b']) ∧
      Command.readTrying Command.Form.structural.reverse tightCopy = some (.copy ['a'] ['b']) ∧
      Text.isAllBlank "\t\u3000".toList = true ∧ Text.isAllBlank "\u00A0\r".toList = true ∧
      Command.read? ("\t\u3000".toList ++ tightCopy ++ "\u00A0\r".toList)
        = some (.copy ['a'] ['b']) := by
  have hread : Command.read? tightCopy = some (.copy ['a'] ['b']) := by decide
  have hbefore : Text.isAllBlank "\t\u3000".toList = true := by decide
  have hafter : Text.isAllBlank "\u00A0\r".toList = true := by decide
  obtain ⟨_, horder, hblank⟩ := forms_exclude_each_other tightCopy
  have hreverse := List.reverse_perm Command.Form.structural
  exact ⟨hreverse, hread, (horder _ hreverse).trans hread, hbefore, hafter,
    hblank _ hread rfl _ _ hbefore hafter⟩

end LineScript

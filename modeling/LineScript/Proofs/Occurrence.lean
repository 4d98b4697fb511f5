import LineScript.Command.Form
import LineScript.Proofs.Reading

/-!
Where one text occurs in another. A cut is made at the first occurrence of its mark, and a
comparison is split at the first of the symbols that stand between spaces.
-/

namespace LineScript

namespace Text

variable {mark s t precedes follows : Text} {x : Char}

theorem not_infix_of_cut? (h : cut? mark s = none) : ¬ mark <:+: s := by
  induction s with
  | nil =>
    intro hin
    rw [List.infix_nil.1 hin] at h
    cases h
  | cons c s ih =>
    unfold cut? at h
    split at h
    · cases h
    · rename_i hafter
      rw [List.infix_cons_iff]
      rintro (⟨rest, hrest⟩ | hin)
      · rw [after?_eq_some.2 hrest.symm] at hafter
        cases hafter
      · exact ih (Option.map_eq_none_iff.1 h) hin

/-- No occurrence of the mark begins before the cut. -/
theorem length_le_of_cut? (h : cut? mark s = some (precedes, follows)) (p f : Text)
    (hs : s = p ++ mark ++ f) : precedes.length ≤ p.length := by
  induction s generalizing precedes p with
  | nil =>
    obtain ⟨rest, _, he⟩ := Option.map_eq_some_iff.1 h
    cases he
    simp
  | cons c s ih =>
    unfold cut? at h
    split at h
    · cases h
      simp
    · rename_i hafter
      obtain ⟨⟨a, b⟩, hcut, he⟩ := Option.map_eq_some_iff.1 h
      cases he
      cases p with
      | nil =>
        have hat : after? mark (c :: s) = some f := after?_eq_some.2 hs
        rw [hat] at hafter
        cases hafter
      | cons d p =>
        have := ih hcut p (List.cons.inj hs).2
        simp only [List.length_cons]
        omega

/-- What precedes the cut does not have the mark. -/
theorem not_infix_of_cut?_eq_some (hmark : mark ≠ [])
    (h : cut? mark s = some (precedes, follows)) : ¬ mark <:+: precedes := by
  rintro ⟨p, f, hp⟩
  have hs := eq_append_of_cut? h
  have hle := length_le_of_cut? h p (f ++ mark ++ follows) (by rw [hs, ← hp]; simp)
  have hlen := congrArg List.length hp
  have hpos := List.length_pos_iff.2 hmark
  simp only [List.length_append] at hlen
  omega

theorem cut?_of_first (hs : s = precedes ++ mark ++ follows)
    (hfirst : ∀ p f, s = p ++ mark ++ f → precedes.length ≤ p.length) :
    cut? mark s = some (precedes, follows) := by
  cases h : cut? mark s with
  | none => exact (not_infix_of_cut? h ⟨precedes, follows, hs.symm⟩).elim
  | some cut =>
    obtain ⟨p, f⟩ := cut
    have hcut := eq_append_of_cut? h
    have hle := length_le_of_cut? h precedes follows hs
    have hge := hfirst p f hcut
    rw [hcut, List.append_assoc, List.append_assoc] at hs
    obtain ⟨rfl, hrest⟩ := List.append_inj hs (by omega)
    rw [List.append_cancel_left hrest]

/-- The first occurrence ends no sooner than the mark does if there is none before its last
character. -/
theorem cut?_append (follows : Text) (h : ¬ mark <:+: precedes ++ mark.dropLast) :
    cut? mark (precedes ++ mark ++ follows) = some (precedes, follows) := by
  apply cut?_of_first rfl
  intro p f he
  by_contra hlt
  apply h
  have hp : p ++ mark <+: precedes ++ mark ++ follows := ⟨f, he.symm⟩
  have hmark : precedes ++ mark.dropLast <+: precedes ++ mark ++ follows := by
    rw [List.append_assoc, List.prefix_append_right_inj]
    exact (List.dropLast_prefix mark).trans (List.prefix_append mark follows)
  have hlen : (p ++ mark).length ≤ (precedes ++ mark.dropLast).length := by
    simp only [List.length_append, List.length_dropLast]
    omega
  exact (List.suffix_append p mark).isInfix.trans
    (List.prefix_of_prefix_length_le hp hmark hlen).isInfix

theorem cut?_singleton (follows : Text) (h : x ∉ precedes) :
    cut? [x] (precedes ++ [x] ++ follows) = some (precedes, follows) := by
  apply cut?_append
  intro hin
  exact h (by simpa using hin.subset)

/-- What stands before and after the first of a character is the same in equal texts. -/
theorem append_singleton_inj {r r' : Text} (hs : x ∉ s) (ht : x ∉ t)
    (h : s ++ [x] ++ r = t ++ [x] ++ r') : s = t ∧ r = r' := by
  have hcut := cut?_singleton r hs
  rw [h, cut?_singleton r' ht] at hcut
  cases hcut
  exact ⟨rfl, rfl⟩

/-- What stands before and after the last of a character is the same in equal texts. -/
theorem append_cons_inj {r r' : Text} (hr : x ∉ r) (hr' : x ∉ r') (h : s ++ x :: r = t ++ x :: r') :
    s = t ∧ r = r' := by
  have hmirrored : r.reverse ++ [x] ++ s.reverse = r'.reverse ++ [x] ++ t.reverse := by
    simpa using congrArg List.reverse h
  obtain ⟨hback, hfront⟩ := append_singleton_inj (by simpa using hr) (by simpa using hr') hmirrored
  exact ⟨List.reverse_injective hfront, List.reverse_injective hback⟩

/-- An occurrence cannot reach into a text that lacks its last character. -/
theorem infix_of_append (mark : Text) (hx : x ∉ t) (h : mark ++ [x] <:+: s ++ t) :
    mark ++ [x] <:+: s := by
  rcases List.infix_append_iff.1 h with hs | ht | ⟨l, r, he, hl, hr⟩
  · exact hs
  · exact (hx (ht.subset (by simp))).elim
  · rcases List.eq_nil_or_concat' r with rfl | ⟨r, y, rfl⟩
    · rw [he, List.append_nil]
      exact hl.isInfix
    · rw [← List.append_assoc] at he
      obtain ⟨_, hy⟩ := List.append_inj' he rfl
      cases hy
      exact (hx (hr.subset (by simp))).elim

/-- An occurrence lies on one side of a character that it lacks. -/
theorem infix_of_append_cons (hx : x ∉ mark) (h : mark <:+: s ++ x :: t) :
    mark <:+: s ∨ mark <:+: t := by
  have hempty {r : Text} (hr : r <+: x :: t) (hsub : x ∉ r) : r = [] := by
    rcases List.prefix_cons_iff.1 hr with rfl | ⟨r, rfl, _⟩
    · rfl
    · exact (hsub List.mem_cons_self).elim
  rcases List.infix_append_iff.1 h with hs | ht | ⟨l, r, rfl, hl, hr⟩
  · exact .inl hs
  · rcases List.infix_cons_iff.1 ht with hp | ht
    · rw [hempty hp hx]
      exact .inl List.nil_infix
    · exact .inr ht
  · rw [hempty hr fun hmem => hx (List.mem_append_right l hmem), List.append_nil]
    exact .inl hl.isInfix

theorem trim_infix (s : Text) : trim s <:+: s :=
  (List.rdropWhile_prefix isBlank (trimStart s)).isInfix.trans
    (List.dropWhile_suffix isBlank).isInfix

end Text

namespace Comparison

variable {c c' : Comparison} {s left right : Text}
  {cuts : List (Text × Comparison × Text)} {cut : Text × Comparison × Text}
  {order : List Comparison}

theorem space_not_mem_symbol (c : Comparison) : ' ' ∉ c.symbol := by
  cases c <;> decide

theorem symbol_injective (h : c.symbol = c'.symbol) : c = c' := by
  revert h
  cases c <;> cases c' <;> decide

theorem mem_all (c : Comparison) : c ∈ all := by
  cases c <;> decide

theorem mem_of_leftmost? (h : leftmost? cuts = some cut) : cut ∈ cuts := by
  induction cuts with
  | nil => cases h
  | cons first rest ih =>
    unfold leftmost? at h
    split at h
    · rename_i other hr
      split at h
      · cases h
        exact List.mem_cons_of_mem first (ih hr)
      · cases h
        exact List.mem_cons_self
    · cases h
      exact List.mem_cons_self

theorem eq_nil_of_leftmost? (h : leftmost? cuts = none) : cuts = [] := by
  cases cuts with
  | nil => rfl
  | cons first rest =>
    unfold leftmost? at h
    split at h
    · split at h <;> cases h
    · cases h

theorem length_le_of_leftmost? (h : leftmost? cuts = some cut) :
    ∀ other ∈ cuts, cut.1.length ≤ other.1.length := by
  induction cuts generalizing cut with
  | nil => cases h
  | cons first rest ih =>
    intro other hother
    unfold leftmost? at h
    split at h
    · rename_i best hr
      have hbest := ih hr
      rcases List.mem_cons.1 hother with rfl | hmem
      · split at h <;> cases h <;> omega
      · have := hbest other hmem
        split at h <;> cases h <;> omega
    · rename_i hr
      cases h
      rw [eq_nil_of_leftmost? hr, List.mem_singleton] at hother
      rw [hother]

theorem mem_cuts_iff : (left, c, right) ∈ order.filterMap (cut? s) ↔
    c ∈ order ∧ Text.cut? c.spaced s = some (left, right) := by
  rw [List.mem_filterMap]
  constructor
  · rintro ⟨other, hother, h⟩
    obtain ⟨⟨l, r⟩, hcut, he⟩ := Option.map_eq_some_iff.1 h
    cases he
    exact ⟨hother, hcut⟩
  · rintro ⟨hc, h⟩
    exact ⟨c, hc, by rw [cut?, h]; rfl⟩

theorem spaced_append (c : Comparison) (s : Text) :
    c.spaced ++ s = ' ' :: (c.symbol ++ ' ' :: s) := by
  simp [spaced]

/-- The first symbol between spaces ends at the second space, so that it can be only one. -/
theorem spaced_append_inj {f r : Text} (h : c.spaced ++ r = c'.spaced ++ f) : c = c' ∧ r = f := by
  have hsame : c.symbol ++ [' '] ++ r = c'.symbol ++ [' '] ++ f := by
    simpa [spaced] using h
  obtain ⟨hsymbol, hrest⟩ :=
    Text.append_singleton_inj c.space_not_mem_symbol c'.space_not_mem_symbol hsame
  exact ⟨symbol_injective hsymbol, hrest⟩

/-- No symbol stands between spaces before the left side ends, and only one stands right there. -/
theorem length_le_of_spaced (h : ∀ other : Comparison, ¬ other.spaced <:+: left ++ [' '])
    {p f : Text} (he : left ++ c.spaced ++ right = p ++ c'.spaced ++ f) :
    left.length ≤ p.length ∧ (p.length = left.length → c' = c) := by
  rw [List.append_assoc, List.append_assoc] at he
  refine ⟨?_, ?_⟩
  · by_contra hlt
    rw [spaced_append, spaced_append] at he
    rcases List.append_eq_append_iff.1 he with ⟨gap, rfl, _⟩ | ⟨gap, rfl, hgap⟩
    · simp at hlt
    · cases gap with
      | nil => simp at hlt
      | cons d gap =>
        obtain ⟨rfl, hrest⟩ := List.cons.inj hgap
        apply h c'
        -- The space after the left side is not a character of the symbol, so it comes after it.
        rcases List.append_eq_append_iff.1 hrest with ⟨more, rfl, hmore⟩ | ⟨more, hsymbol, hmore⟩
        · cases more with
          | nil => exact ⟨p, [], by simp [spaced]⟩
          | cons d more =>
            obtain ⟨rfl, _⟩ := List.cons.inj hmore
            exact ⟨p, more ++ [' '], by simp [spaced]⟩
        · cases more with
          | nil => exact ⟨p, [], by simp [spaced, hsymbol]⟩
          | cons d more =>
            obtain ⟨rfl, _⟩ := List.cons.inj hmore
            have hspace := c'.space_not_mem_symbol
            rw [hsymbol] at hspace
            simp at hspace
  · intro hlen
    obtain ⟨_, hrest⟩ := List.append_inj he hlen.symm
    exact (spaced_append_inj hrest.symm).1

/-- Of the cuts at all symbols, in whatever order, the leftmost is that at the one symbol that has
none before it. -/
theorem leftmost?_append (hall : ∀ other, other ∈ order)
    (h : ∀ other : Comparison, ¬ other.spaced <:+: left ++ [' ']) :
    leftmost? (order.filterMap (cut? (left ++ c.spaced ++ right))) = some (left, c, right) := by
  have hcut : Text.cut? c.spaced (left ++ c.spaced ++ right) = some (left, right) :=
    Text.cut?_of_first rfl fun p f he => (length_le_of_spaced h he).1
  have hmem := mem_cuts_iff.2 ⟨hall c, hcut⟩
  cases hm : leftmost? (order.filterMap (cut? (left ++ c.spaced ++ right))) with
  | none =>
    rw [eq_nil_of_leftmost? hm] at hmem
    cases hmem
  | some best =>
    obtain ⟨l, other, r⟩ := best
    have hbest := (mem_cuts_iff.1 (mem_of_leftmost? hm)).2
    have hle : l.length ≤ left.length := length_le_of_leftmost? hm _ hmem
    obtain ⟨hge, hsymbol⟩ := length_le_of_spaced h (Text.eq_append_of_cut? hbest)
    obtain rfl := hsymbol (by omega)
    rw [hbest] at hcut
    cases hcut
    rfl

/-- The split is made at the one symbol that has none before it. -/
theorem split?_append (h : ∀ other : Comparison, ¬ other.spaced <:+: left ++ [' '])
    (hleft : Text.trim left ≠ []) (hright : Text.trim right ≠ []) :
    split? (left ++ c.spaced ++ right) = some (Text.trim left, c, Text.trim right) := by
  simp only [split?, leftmost?_append mem_all h]
  rw [if_neg (not_or.2 ⟨hleft, hright⟩)]

/-- Both sides of a split have some text, and no symbol stands between spaces on the left. -/
theorem exists_of_split? (h : split? s = some (left, c, right)) :
    ∃ l r, s = l ++ c.spaced ++ r ∧ left = Text.trim l ∧ right = Text.trim r ∧ left ≠ [] ∧
      right ≠ [] ∧ ∀ other : Comparison, ¬ other.spaced <:+: l := by
  unfold split? at h
  split at h
  · cases h
  · rename_i l best r hm
    split at h
    · cases h
    · rename_i hsides
      cases h
      obtain ⟨hl, hr⟩ := not_or.1 hsides
      have hs := Text.eq_append_of_cut? (mem_cuts_iff.1 (mem_of_leftmost? hm)).2
      refine ⟨l, r, hs, rfl, rfl, hl, hr, ?_⟩
      rintro other ⟨p, f, hp⟩
      have hother : s = p ++ other.spaced ++ (f ++ (c.spaced ++ r)) := by
        rw [hs, ← hp]
        simp
      cases hcut : Text.cut? other.spaced s with
      | none => exact Text.not_infix_of_cut? hcut ⟨p, _, hother.symm⟩
      | some cut =>
        obtain ⟨p', f'⟩ := cut
        have hfirst := Text.length_le_of_cut? hcut p _ hother
        have hbest := length_le_of_leftmost? hm _ (mem_cuts_iff.2 ⟨mem_all other, hcut⟩)
        have hlen := congrArg List.length hp
        simp [spaced] at hlen hbest
        omega

end Comparison

end LineScript

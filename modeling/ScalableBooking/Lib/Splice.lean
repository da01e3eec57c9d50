import Mathlib.Data.List.Basic
import Mathlib.Data.List.Infix

/-!
# Writing a value for a placeholder

`splice ph val s` is the list `s` with `val` in the place of each occurrence of `ph`, the
occurrences read from the left and without overlap. What has been written is not read again.

Three things decide what a splice does to a text that was put together from pieces:

* an element that is not in the placeholder separates: no occurrence reaches over it
  (`splice_append_cons`);
* a translation of the elements that keeps those of the placeholder, and makes none from the
  others, can be done before or after (`splice_flatMap`);
* a splice leaves a list as it is only if there is nothing to replace, or if the value is the
  placeholder itself (`splice_eq_self_iff`).
-/

namespace ScalableBooking

variable {α β : Type*} [DecidableEq α]

/-- `s` with `val` written for each occurrence of `ph`. An empty placeholder is found nowhere. -/
def splice (ph val : List α) : List α → List α
  | [] => []
  | a :: s =>
      if ph ≠ [] ∧ ph <+: a :: s then val ++ splice ph val (s.drop (ph.length - 1))
      else a :: splice ph val s
termination_by s => s.length

section Equations

variable {ph val s : List α} {a : α}

@[simp] theorem splice_nil : splice ph val [] = [] := by
  rw [splice]

theorem splice_cons_of_not (h : ¬ ph <+: a :: s) :
    splice ph val (a :: s) = a :: splice ph val s := by
  rw [splice, if_neg fun h' => h h'.2]

theorem splice_cons_of_notMem (hph : ph ≠ []) (h : a ∉ ph) :
    splice ph val (a :: s) = a :: splice ph val s := by
  refine splice_cons_of_not fun hpre => h ?_
  obtain ⟨b, ph, rfl⟩ := List.exists_cons_of_ne_nil hph
  rw [List.cons_prefix_cons] at hpre
  exact hpre.1 ▸ List.mem_cons_self

/-- An occurrence at the front is replaced. -/
theorem splice_append (hph : ph ≠ []) : splice ph val (ph ++ s) = val ++ splice ph val s := by
  obtain ⟨a, ph, rfl⟩ := List.exists_cons_of_ne_nil hph
  rw [List.cons_append, splice, if_pos ⟨hph, List.prefix_append (a :: ph) s⟩]
  simp

/-- The two ways in which a splice goes on. -/
theorem splice_induction (hph : ph ≠ []) {P : List α → Prop} (nil : P [])
    (hit : ∀ s, P s → P (ph ++ s)) (skip : ∀ a s, ¬ ph <+: a :: s → P s → P (a :: s)) (s : List α) :
    P s := by
  induction hn : s.length using Nat.strong_induction_on generalizing s with
  | _ n ih =>
    by_cases hpre : ph <+: s
    · obtain ⟨t, rfl⟩ := hpre
      -- an occurrence is not empty, so what follows it is shorter
      have hpos := List.length_pos_of_ne_nil hph
      exact hit t (ih t.length (by simp at hn; omega) t rfl)
    · cases s with
      | nil => exact nil
      | cons a s => exact skip a s hpre (ih s.length (by simp at hn; omega) s rfl)

/-- The placeholder on its own becomes the value. -/
theorem splice_placeholder (hph : ph ≠ []) : splice ph val ph = val := by
  have h : splice ph val (ph ++ []) = val ++ splice ph val [] := splice_append hph
  rwa [List.append_nil, splice_nil, List.append_nil] at h

end Equations

section Separators

variable {ph val s t : List α} {q : α}

/-- An occurrence does not reach over an element that is not in the placeholder. -/
theorem prefix_append_cons_iff {ph s t : List β} {q : β} (hq : q ∉ ph) :
    ph <+: s ++ q :: t ↔ ph <+: s := by
  refine ⟨fun h => ?_, fun h => h.trans (List.prefix_append s (q :: t))⟩
  obtain hle | hlt := le_or_gt ph.length s.length
  · exact List.prefix_of_prefix_length_le h (List.prefix_append s (q :: t)) hle
  · -- a placeholder that long would hold the separator
    refine absurd ?_ hq
    have hpre : s ++ [q] <+: ph :=
      List.prefix_of_prefix_length_le (by simp [List.prefix_append_right_inj]) h
        (by rw [List.length_append]; exact hlt)
    exact hpre.subset (by simp)

theorem splice_append_cons (hph : ph ≠ []) (hq : q ∉ ph) (s t : List α) :
    splice ph val (s ++ q :: t) = splice ph val s ++ q :: splice ph val t := by
  induction s using splice_induction hph with
  | nil => rw [List.nil_append, splice_cons_of_notMem hph hq, splice_nil, List.nil_append]
  | hit s ih => rw [List.append_assoc, splice_append hph, splice_append hph, ih, List.append_assoc]
  | skip a s hpre ih =>
    -- what follows the separator makes no occurrence here
    rw [List.cons_append, splice_cons_of_not, splice_cons_of_not hpre, ih, List.cons_append]
    rwa [← List.cons_append, prefix_append_cons_iff hq]

/-- Elements that are not in the placeholder pass. -/
theorem splice_append_of_notMem (hph : ph ≠ []) (h : ∀ a ∈ s, a ∉ ph) :
    splice ph val (s ++ t) = s ++ splice ph val t := by
  induction s with
  | nil => rfl
  | cons a s ih =>
    rw [List.cons_append, splice_cons_of_notMem hph (h a List.mem_cons_self),
      ih fun b hb => h b (List.mem_cons_of_mem a hb), List.cons_append]

end Separators

section Fixed

variable {ph val s : List α}

theorem splice_of_absent (h : ¬ ph <:+: s) : splice ph val s = s := by
  induction s with
  | nil => exact splice_nil
  | cons a s ih =>
    rw [List.infix_cons_iff, not_or] at h
    rw [splice_cons_of_not h.1, ih h.2]

/-- Writing the placeholder for itself changes nothing. -/
theorem splice_self (hph : ph ≠ []) (s : List α) : splice ph ph s = s := by
  induction s using splice_induction hph with
  | nil => exact splice_nil
  | hit s ih => rw [splice_append hph, ih]
  | skip a s hpre ih => rw [splice_cons_of_not hpre, ih]

theorem length_le_splice (hph : ph ≠ []) (h : ph.length ≤ val.length) (s : List α) :
    s.length ≤ (splice ph val s).length := by
  induction s using splice_induction hph with
  | nil => exact Nat.zero_le _
  | hit s ih =>
    rw [splice_append hph, List.length_append, List.length_append]
    omega
  | skip a s hpre ih =>
    rw [splice_cons_of_not hpre, List.length_cons, List.length_cons]
    omega

theorem splice_length_le (hph : ph ≠ []) (h : val.length ≤ ph.length) (s : List α) :
    (splice ph val s).length ≤ s.length := by
  induction s using splice_induction hph with
  | nil => rw [splice_nil]
  | hit s ih =>
    rw [splice_append hph, List.length_append, List.length_append]
    omega
  | skip a s hpre ih =>
    rw [splice_cons_of_not hpre, List.length_cons, List.length_cons]
    omega

/-- A list is left as it is only if it holds nothing to replace, or nothing new is written. -/
theorem splice_eq_self_iff (hph : ph ≠ []) : splice ph val s = s ↔ (ph <:+: s → val = ph) := by
  refine ⟨fun h hfound => ?_, fun h => ?_⟩
  · induction s using splice_induction hph with
    | nil => exact absurd (List.infix_nil.mp hfound) hph
    | hit s ih =>
      rw [splice_append hph] at h
      have hlen := congrArg List.length h
      rw [List.length_append, List.length_append] at hlen
      -- a value of another length would change the length of the list
      have hval : val.length = ph.length := by
        obtain hlt | heq | hgt := lt_trichotomy val.length ph.length
        · have := splice_length_le hph hlt.le s
          omega
        · exact heq
        · have := length_le_splice hph hgt.le s
          omega
      exact (List.append_inj h hval).1
    | skip a s hpre ih =>
      rw [splice_cons_of_not hpre, List.cons.injEq] at h
      exact ih h.2 ((List.infix_cons_iff.mp hfound).resolve_left hpre)
  · by_cases hfound : ph <:+: s
    · rw [h hfound, splice_self hph]
    · exact splice_of_absent hfound

end Fixed

section Translations

variable {ph val : List α} {e : α → List α}

theorem flatMap_eq_self {e : β → List β} {l : List β} (h : ∀ b ∈ l, e b = [b]) :
    l.flatMap e = l := by
  rw [List.flatMap_congr h, List.flatMap_singleton']

/-- A translation that keeps the elements of the placeholder, and makes none from the others,
neither makes nor destroys an occurrence. -/
theorem prefix_flatMap_iff (hin : ∀ a ∈ ph, e a = [a])
    (hout : ∀ a, a ∉ ph → e a ≠ [] ∧ ∀ b ∈ e a, b ∉ ph) (s : List α) :
    ph <+: s.flatMap e ↔ ph <+: s := by
  -- each step takes an element off the placeholder, so the statement is for all its parts
  suffices h : ∀ p ⊆ ph, p <+: s.flatMap e ↔ p <+: s from h ph (List.Subset.refl ph)
  induction s with
  | nil => exact fun p _ => Iff.rfl
  | cons a s ih =>
    intro p hp
    rw [List.flatMap_cons]
    cases p with
    | nil => exact iff_of_true List.nil_prefix List.nil_prefix
    | cons b p =>
      obtain ⟨hb, hp⟩ := List.cons_subset.mp hp
      by_cases ha : a ∈ ph
      · rw [hin a ha, List.singleton_append, List.cons_prefix_cons, List.cons_prefix_cons, ih p hp]
      · -- neither the element nor what it becomes is one of the placeholder's
        obtain ⟨hne, hnew⟩ := hout a ha
        obtain ⟨c, x, hx⟩ := List.exists_cons_of_ne_nil hne
        rw [hx, List.cons_append, List.cons_prefix_cons, List.cons_prefix_cons]
        refine iff_of_false ?_ ?_
        · rintro ⟨rfl, -⟩
          exact hnew b (hx ▸ List.mem_cons_self) hb
        · rintro ⟨rfl, -⟩
          exact ha hb

/-- Such a translation can be done before or after the splice. -/
theorem splice_flatMap (hph : ph ≠ []) (hin : ∀ a ∈ ph, e a = [a])
    (hout : ∀ a, a ∉ ph → e a ≠ [] ∧ ∀ b ∈ e a, b ∉ ph) (s : List α) :
    splice ph (val.flatMap e) (s.flatMap e) = (splice ph val s).flatMap e := by
  induction s using splice_induction hph with
  | nil => rw [List.flatMap_nil, splice_nil, splice_nil, List.flatMap_nil]
  | hit s ih =>
    rw [List.flatMap_append, flatMap_eq_self hin, splice_append hph, splice_append hph, ih,
      List.flatMap_append]
  | skip a s hpre ih =>
    rw [splice_cons_of_not hpre, List.flatMap_cons, List.flatMap_cons]
    by_cases ha : a ∈ ph
    · -- the element stays, and begins no occurrence after the translation either
      have hpre' : ¬ ph <+: a :: s.flatMap e := by
        have h := (prefix_flatMap_iff hin hout (a :: s)).not.mpr hpre
        rwa [List.flatMap_cons, hin a ha, List.singleton_append] at h
      rw [hin a ha, List.singleton_append, splice_cons_of_not hpre', ih, List.singleton_append]
    · rw [splice_append_of_notMem hph (hout a ha).2, ih]

end Translations

end ScalableBooking

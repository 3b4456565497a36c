import Mathlib.Data.List.Basic
import Roster.Text

/-!
# Roster.Proofs.Numerals

Texts that are put together are read apart again.

* `split_append`, `splitLast_append` — at a separator that does not occur before, or after.
* `decimal?_toDigits`, `hex?_toDigits` — a numeral is read as the number it was written for.
-/

namespace Roster.Text

/-! ## Separators -/

theorem split_of_not_mem {sep : Char} {cs : List Char} (h : sep ∉ cs) : split sep cs = [cs] := by
  induction cs with
  | nil => rfl
  | cons c cs ih =>
    obtain ⟨hc, hcs⟩ := not_or.1 (mt List.mem_cons.2 h)
    simp only [split, if_neg (Ne.symm hc), ih hcs]

theorem split_append {sep : Char} {cs : List Char} (h : sep ∉ cs) (rest : List Char) :
    split sep (cs ++ sep :: rest) = cs :: split sep rest := by
  induction cs with
  | nil => simp [split]
  | cons c cs ih =>
    obtain ⟨hc, hcs⟩ := not_or.1 (mt List.mem_cons.2 h)
    simp only [List.cons_append, split, if_neg (Ne.symm hc), ih hcs]

theorem exists_piece {sep c : Char} (hne : c ≠ sep) {cs : List Char} (hc : c ∈ cs) :
    ∃ piece ∈ split sep cs, c ∈ piece := by
  induction cs with
  | nil => cases hc
  | cons d cs ih =>
    unfold split
    by_cases hd : d = sep
    · have hmem : c ∈ cs := by
        rcases List.mem_cons.1 hc with rfl | hmem
        · exact absurd hd hne
        · exact hmem
      obtain ⟨piece, hpiece, hin⟩ := ih hmem
      rw [if_pos hd]
      exact ⟨piece, List.mem_cons_of_mem _ hpiece, hin⟩
    · rw [if_neg hd]
      cases hsplit : split sep cs with
      | nil => exact absurd hsplit (split_ne_nil sep cs)
      | cons first rest =>
        rcases List.mem_cons.1 hc with rfl | hmem
        · exact ⟨_, List.mem_cons_self, List.mem_cons_self⟩
        · obtain ⟨piece, hpiece, hin⟩ := ih hmem
          rw [hsplit] at hpiece
          rcases List.mem_cons.1 hpiece with rfl | hpiece
          · exact ⟨_, List.mem_cons_self, List.mem_cons_of_mem _ hin⟩
          · exact ⟨piece, List.mem_cons_of_mem _ hpiece, hin⟩

theorem not_mem_of_mem_split {sep : Char} {cs piece : List Char} (h : piece ∈ split sep cs) :
    sep ∉ piece := by
  induction cs generalizing piece with
  | nil =>
    obtain rfl : piece = [] := List.mem_singleton.1 h
    exact List.not_mem_nil
  | cons c cs ih =>
    unfold split at h
    by_cases hc : c = sep
    · rw [if_pos hc] at h
      rcases List.mem_cons.1 h with rfl | h
      · exact List.not_mem_nil
      · exact ih h
    · rw [if_neg hc] at h
      cases hsplit : split sep cs with
      | nil => exact absurd hsplit (split_ne_nil sep cs)
      | cons first rest =>
        simp only [hsplit] at h ih
        rcases List.mem_cons.1 h with rfl | h
        · exact mt List.mem_cons.1 (not_or.2 ⟨Ne.symm hc, ih List.mem_cons_self⟩)
        · exact ih (List.mem_cons_of_mem _ h)

theorem splitLast_of_not_mem {sep : Char} {cs : List Char} (h : sep ∉ cs) :
    splitLast sep cs = none := by
  induction cs with
  | nil => rfl
  | cons c cs ih =>
    obtain ⟨hc, hcs⟩ := not_or.1 (mt List.mem_cons.2 h)
    simp only [splitLast, ih hcs, if_neg (Ne.symm hc)]

theorem splitLast_append {sep : Char} {after : List Char} (h : sep ∉ after) (before : List Char) :
    splitLast sep (before ++ sep :: after) = some (before, after) := by
  induction before with
  | nil => simp [splitLast, splitLast_of_not_mem h]
  | cons c before ih => simp only [List.cons_append, splitLast, ih]

/-! ## Numerals -/

theorem mem_toDigits {b : Nat} (hb : 1 < b) {n : Nat} {c : Char} (hc : c ∈ Nat.toDigits b n) :
    ∃ d, d < b ∧ c = Nat.digitChar d := by
  induction n using Nat.base_induction b hb with
  | single m hm =>
    rw [Nat.toDigits_of_lt_base hm] at hc
    exact ⟨m, hm, List.mem_singleton.1 hc⟩
  | digit m k hk hm ih =>
    rw [← Nat.toDigits_append_toDigits hb hm hk, Nat.toDigits_of_lt_base hk] at hc
    rcases List.mem_append.1 hc with hc | hc
    · exact ih hc
    · exact ⟨k, hk, List.mem_singleton.1 hc⟩

theorem not_mem_toDigits {b : Nat} (hb : 1 < b) {c : Char} (h : ∀ d, d < b → Nat.digitChar d ≠ c)
    (n : Nat) : c ∉ Nat.toDigits b n := by
  intro hc
  obtain ⟨d, hd, rfl⟩ := mem_toDigits hb hc
  exact h d hd rfl

/-- A numeral that begins with a zero is that zero. -/
theorem head?_toDigits_ne {n : Nat} (hn : n ≠ 0) : (Nat.toDigits 10 n).head? ≠ some '0' := by
  induction n using Nat.base_induction 10 (by decide) with
  | single m hm =>
    rw [Nat.toDigits_of_lt_base hm]
    simpa using hn
  | digit m k hk hm ih =>
    rw [← Nat.toDigits_append_toDigits (by decide) hm hk]
    have hfirst := ih (Nat.ne_of_gt hm)
    cases hdigits : Nat.toDigits 10 m with
    | nil => exact absurd hdigits Nat.toDigits_ne_nil
    | cons c cs => rwa [hdigits] at hfirst

theorem decimal?_toDigits (n : Nat) : decimal? (Nat.toDigits 10 n) = some n := by
  have hdigits : (Nat.toDigits 10 n).all Char.isDigit = true :=
    List.all_eq_true.2 fun c hc => Nat.isDigit_of_mem_toDigits (by decide) (by decide) hc
  have hvalue : decimal (Nat.toDigits 10 n) = n :=
    Nat.ofDigitChars_toDigits (by decide) (by decide)
  rw [decimal?, if_pos ⟨Nat.toDigits_ne_nil, hdigits⟩, hvalue]

theorem hexDigit?_digitChar : ∀ d, d < 16 → hexDigit? (Nat.digitChar d) = some d := by
  decide

theorem hex?_append {cs : List Char} {d : Char} {n k : Nat} (hcs : hex? cs = some n)
    (hd : hexDigit? d = some k) : hex? (cs ++ [d]) = some (16 * n + k) := by
  cases cs with
  | nil => cases hcs
  | cons c cs =>
    simp only [hex?] at hcs
    simp only [List.cons_append, hex?, List.foldl_append, hcs, List.foldl_cons, List.foldl_nil, hd]

theorem hex?_toDigits (n : Nat) : hex? (Nat.toDigits 16 n) = some n := by
  induction n using Nat.base_induction 16 (by decide) with
  | single m hm =>
    rw [Nat.toDigits_of_lt_base hm]
    exact hexDigit?_digitChar m hm
  | digit m k hk hm ih =>
    rw [← Nat.toDigits_append_toDigits (by decide) hm hk, Nat.toDigits_of_lt_base hk]
    exact hex?_append ih (hexDigit?_digitChar k hk)

end Roster.Text

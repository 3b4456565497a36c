import Roster.Locality
import Roster.Proofs.Numerals

/-!
# Roster.Proofs.Labelling

Localities named by text. A text is read by the positions of its parts, but it leaves an empty zone out
with its colon, so that a sub-zone without a zone is read as the zone.

* `ColonFree` — no part has a colon; `Nested` — there is a sub-zone only within a zone.
* `raised`    — the sub-zone moved to the place of an empty zone: what the text shows.
* `ofText?_text`           — the text of a colon-free locality is read as what it shows.
* `colonFree_of_ofText?`   — only colon-free localities are read.
* `text_eq_text_iff`       — colon-free localities of one text show the same.
-/

namespace Roster.Locality

open Text

variable {l m : Locality}

def ColonFree (l : Locality) : Prop :=
  ':' ∉ l.region.toList ∧ ':' ∉ l.zone.toList ∧ ':' ∉ l.subZone.toList

instance : DecidablePred ColonFree := fun _ => inferInstanceAs (Decidable (_ ∧ _ ∧ _))

/-- A sub-zone lies within a zone. -/
def Nested (l : Locality) : Prop := l.zone = "" → l.subZone = ""

instance : DecidablePred Nested := fun _ => inferInstanceAs (Decidable (_ → _))

/-- The locality that the text of a locality shows. -/
def raised (l : Locality) : Locality :=
  if l.zone = "" then { region := l.region, zone := l.subZone } else l

/-! ## What a text shows -/

theorem suffix_empty : suffix "" = [] := rfl

theorem suffix_of_ne_empty {part : String} (h : part ≠ "") : suffix part = ':' :: part.toList := by
  have hcs : part.toList ≠ [] := mt String.toList_eq_nil_iff.1 h
  unfold suffix
  split
  · exact absurd ‹_› hcs
  · rfl

theorem nested_raised (l : Locality) : l.raised.Nested := by
  unfold raised
  split
  · exact fun _ => rfl
  · exact fun hzone => absurd hzone ‹_›

theorem raised_eq_self_iff : l.raised = l ↔ l.Nested := by
  refine ⟨fun h => h ▸ nested_raised l, fun h => ?_⟩
  obtain ⟨region, zone, subZone⟩ := l
  unfold raised
  split
  · rename_i hzone
    obtain rfl : subZone = "" := h hzone
    obtain rfl : zone = "" := hzone
    rfl
  · rfl

theorem text_raised (l : Locality) : l.raised.text = l.text := by
  unfold raised
  split
  · rename_i hzone
    simp only [text, chars, hzone, suffix_empty, List.append_nil]
  · rfl

theorem ColonFree.raised (h : l.ColonFree) : l.raised.ColonFree := by
  unfold Locality.raised
  split
  · exact ⟨h.1, h.2.2, List.not_mem_nil⟩
  · exact h

/-- Of two localities that show the same, one is what the other shows. -/
theorem raised_eq_raised_iff : l.raised = m.raised ↔ l = m ∨ l = m.raised ∨ m = l.raised := by
  have hidem : ∀ k : Locality, k.raised.raised = k.raised := fun k =>
    raised_eq_self_iff.2 (nested_raised k)
  constructor
  · intro h
    by_cases hl : l.Nested
    · exact .inr (.inl ((raised_eq_self_iff.2 hl).symm.trans h))
    by_cases hm : m.Nested
    · exact .inr (.inr ((raised_eq_self_iff.2 hm).symm.trans h.symm))
    -- both have an empty zone, and show their sub-zones as zones
    obtain ⟨hzone, _⟩ := Classical.not_imp.1 hl
    obtain ⟨hzone', _⟩ := Classical.not_imp.1 hm
    rw [raised, raised, if_pos hzone, if_pos hzone'] at h
    cases l
    cases m
    cases h
    cases hzone
    cases hzone'
    exact .inl rfl
  · rintro (rfl | rfl | rfl)
    · rfl
    · exact hidem m
    · exact (hidem l).symm

/-! ## Reading a text -/

theorem ofText?_text_of_nested (hl : l.ColonFree) (hnested : l.Nested) : ofText? l.text = some l := by
  obtain ⟨region, zone, subZone⟩ := l
  obtain ⟨hregion, hzone, hsubZone⟩ := hl
  simp only [ofText?, text, chars, String.toList_ofList]
  by_cases hz : zone = ""
  · obtain rfl : subZone = "" := hnested hz
    subst hz
    rw [suffix_empty, List.append_nil, List.append_nil, split_of_not_mem hregion]
    simp only [String.ofList_toList]
  by_cases hs : subZone = ""
  · subst hs
    rw [suffix_empty, List.append_nil, suffix_of_ne_empty hz, split_append hregion,
      split_of_not_mem hzone]
    simp only [String.ofList_toList]
  · rw [suffix_of_ne_empty hz, suffix_of_ne_empty hs, List.append_assoc, List.cons_append,
      split_append hregion, split_append hzone, split_of_not_mem hsubZone]
    simp only [String.ofList_toList]

theorem ofText?_text (hl : l.ColonFree) : ofText? l.text = some l.raised := by
  rw [← text_raised]
  exact ofText?_text_of_nested hl.raised (nested_raised l)

theorem colonFree_of_ofText? {t : String} (h : ofText? t = some l) : l.ColonFree := by
  have hfree : ∀ piece ∈ Text.split ':' t.toList, ':' ∉ (String.ofList piece).toList := by
    intro piece hpiece
    rw [String.toList_ofList]
    exact not_mem_of_mem_split hpiece
  unfold ofText? at h
  split at h
  case h_4 => cases h
  all_goals
    rename_i hsplit
    rw [hsplit] at hfree
    cases h
  · exact ⟨hfree _ (by simp), List.not_mem_nil, List.not_mem_nil⟩
  · exact ⟨hfree _ (by simp), hfree _ (by simp), List.not_mem_nil⟩
  · exact ⟨hfree _ (by simp), hfree _ (by simp), hfree _ (by simp)⟩

theorem ofText?_text_eq_self_iff : ofText? l.text = some l ↔ l.ColonFree ∧ l.Nested := by
  constructor
  · intro h
    have hl := colonFree_of_ofText? h
    rw [ofText?_text hl, Option.some.injEq] at h
    exact ⟨hl, raised_eq_self_iff.1 h⟩
  · rintro ⟨hl, hnested⟩
    exact ofText?_text_of_nested hl hnested

theorem text_eq_text_iff (hl : l.ColonFree) (hm : m.ColonFree) :
    l.text = m.text ↔ l.raised = m.raised := by
  constructor
  · intro h
    have hread := ofText?_text hl
    rw [h, ofText?_text hm, Option.some.injEq] at hread
    exact hread.symm
  · intro h
    rw [← text_raised l, h, text_raised]

/-- The text of a locality is read as that locality exactly if no part has a colon and there is no
sub-zone without a zone. Without colons it is read in any case, as what it shows, and two localities
have one text exactly if they are the same or one of them is what the other shows. -/
theorem text_tells_iff (l : Locality) :
    (ofText? l.text = some l ↔ l.ColonFree ∧ l.Nested) ∧
      (l.ColonFree → ofText? l.text = some l.raised ∧
        ∀ m : Locality, m.ColonFree → (l.text = m.text ↔ l = m ∨ l = m.raised ∨ m = l.raised)) :=
  ⟨ofText?_text_eq_self_iff, fun hl => ⟨ofText?_text hl, fun _ hm =>
    (text_eq_text_iff hl hm).trans raised_eq_raised_iff⟩⟩

/-- A rack of a region that has no zones. -/
def zoneless : Locality := { region := "us-east", subZone := "rack-1" }

def namesake : Locality := { region := "us-east", zone := "rack-1" }

theorem text_tells_zoneless :
    zoneless.ColonFree ∧ namesake.ColonFree ∧ ofText? zoneless.text = some zoneless.raised ∧
      zoneless.text = namesake.text := by
  have hl : zoneless.ColonFree := by decide
  have hm : namesake.ColonFree := by decide
  obtain ⟨hread, hsame⟩ := (text_tells_iff zoneless).2 hl
  exact ⟨hl, hm, hread, (hsame namesake hm).2 (.inr (.inr rfl))⟩

/-- The text of the rack is read as the zone, whose text it is too. -/
theorem untold_zoneless :
    zoneless.ColonFree ∧ zoneless.text = "us-east:rack-1" ∧ namesake.ColonFree ∧
      ofText? zoneless.text = some namesake ∧ namesake ≠ zoneless ∧ namesake.text = zoneless.text := by
  decide

end Roster.Locality

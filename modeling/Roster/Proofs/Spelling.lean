import Roster.Config.Codec
import Roster.Proofs.Numerals

/-!
# Roster.Proofs.Spelling

The text of an address tells which address it is.

* `IPv4.ofChars?_chars`, `IPv6.ofChars?_chars` — an internet address is read back from its text.
* `AddressKind.Proper` — a host that is not a name that spells an internet address.
* `Address.text_inj`   — two addresses of that kind with one text are equal.
* `Assignment.proper_of_decode` — an assignment that is read names addresses of that kind only.
-/

namespace Roster

open Text

/-! ## Internet addresses of four numbers -/

namespace IPv4

theorem octet?_toDigits (b : UInt8) : octet? (Nat.toDigits 10 b.toNat) = some b := by
  have hlt : b.toNat < 256 := b.toNat_lt
  have hlength : (Nat.toDigits 10 b.toNat).length ≤ 3 :=
    (Nat.length_toDigits_le_iff (by decide) (by decide)).2 (by omega)
  have hzero : (Nat.toDigits 10 b.toNat).head? = some '0' → (Nat.toDigits 10 b.toNat).length = 1 := by
    intro hhead
    by_cases hb : b.toNat = 0
    · rw [hb]
      rfl
    · exact absurd hhead (head?_toDigits_ne hb)
  simp only [octet?, decimal?_toDigits]
  rw [if_pos ⟨hlength, by omega, hzero⟩, UInt8.ofNat_toNat]

theorem point_not_mem (n : Nat) : '.' ∉ Nat.toDigits 10 n :=
  not_mem_toDigits (by decide) (by decide) n

theorem colon_not_mem (n : Nat) : ':' ∉ Nat.toDigits 10 n :=
  not_mem_toDigits (by decide) (by decide) n

theorem bracket_not_mem (n : Nat) : '[' ∉ Nat.toDigits 10 n :=
  not_mem_toDigits (by decide) (by decide) n

theorem ofChars?_chars (a : IPv4) : ofChars? a.chars = some a := by
  have hsplit : Text.split '.' a.chars =
      [Nat.toDigits 10 a.a.toNat, Nat.toDigits 10 a.b.toNat, Nat.toDigits 10 a.c.toNat,
        Nat.toDigits 10 a.d.toNat] := by
    simp only [chars, List.append_assoc, List.cons_append]
    rw [split_append (point_not_mem _), split_append (point_not_mem _), split_append (point_not_mem _),
      split_of_not_mem (point_not_mem _)]
  simp only [ofChars?, hsplit, octet?_toDigits]

theorem ofChars?_of_colon {cs : List Char} (h : ':' ∈ cs) : ofChars? cs = none := by
  have hoctet : ∀ piece, ':' ∈ piece → octet? piece = none := by
    intro piece hpiece
    have hnot : ¬ (piece ≠ [] ∧ piece.all Char.isDigit = true) := by
      rintro ⟨_, hall⟩
      exact absurd (List.all_eq_true.1 hall ':' hpiece) (by decide)
    simp only [octet?, decimal?, if_neg hnot]
  obtain ⟨piece, hpiece, hin⟩ : ∃ piece ∈ Text.split '.' cs, ':' ∈ piece :=
    exists_piece (by decide) h
  have hnone := hoctet piece hin
  simp only [ofChars?]
  split
  · rename_i a b c d hsplit
    rw [hsplit] at hpiece
    simp only [List.mem_cons, List.not_mem_nil, or_false] at hpiece
    rcases hpiece with rfl | rfl | rfl | rfl <;> rw [hnone]
    · cases octet? a <;> rfl
    · cases octet? a <;> cases octet? b <;> rfl
    · cases octet? a <;> cases octet? b <;> cases octet? c <;> rfl
  · rfl

theorem colon_not_mem_chars (a : IPv4) : ':' ∉ a.chars := by
  simp [chars, colon_not_mem]

theorem lt_length_chars (a : IPv4) : 4 < a.chars.length := by
  have hpos : ∀ n, 0 < (Nat.toDigits 10 n).length := fun n => Nat.length_toDigits_pos
  have ha := hpos a.a.toNat
  have hb := hpos a.b.toNat
  have hc := hpos a.c.toNat
  have hd := hpos a.d.toNat
  simp only [chars, List.length_append, List.length_cons]
  omega

theorem high_ofHalves (high low : UInt16) : (ofHalves high low).high = high := by
  apply UInt16.toNat_inj.1
  have hlt := high.toNat_lt
  simp only [IPv4.high, ofHalves]
  simp [Nat.shiftRight_eq_div_pow]
  omega

theorem low_ofHalves (high low : UInt16) : (ofHalves high low).low = low := by
  apply UInt16.toNat_inj.1
  have hlt := low.toNat_lt
  simp only [IPv4.low, ofHalves]
  simp [Nat.shiftRight_eq_div_pow]
  omega

end IPv4

/-! ## Internet addresses of eight groups -/

namespace IPv6

def digits (g : UInt16) : List Char := Nat.toDigits 16 g.toNat

theorem colon_not_mem_digits (g : UInt16) : ':' ∉ digits g :=
  not_mem_toDigits (by decide) (by decide) _

theorem group?_digits (g : UInt16) : group? (digits g) = some g := by
  have hlength : (digits g).length ≤ 4 :=
    (Nat.length_toDigits_le_iff (by decide) (by decide)).2 g.toNat_lt
  have hvalue : hex? (digits g) = some g.toNat := hex?_toDigits g.toNat
  rw [group?, if_pos hlength, hvalue, Option.map_some, UInt16.ofNat_toNat]

theorem digits_eq_cons (g : UInt16) : ∃ c cs, digits g = c :: cs ∧ c ≠ ':' := by
  cases hd : digits g with
  | nil => exact absurd hd Nat.toDigits_ne_nil
  | cons c cs =>
    refine ⟨c, cs, rfl, fun hc => colon_not_mem_digits g ?_⟩
    rw [hd, hc]
    exact List.mem_cons_self

theorem joined_cons (g h : UInt16) (gs : List UInt16) :
    joined (g :: h :: gs) = digits g ++ ':' :: joined (h :: gs) := rfl

theorem joined_eq_cons (g : UInt16) (gs : List UInt16) :
    ∃ c cs, joined (g :: gs) = c :: cs ∧ c ≠ ':' := by
  obtain ⟨c, cs, hd, hc⟩ := digits_eq_cons g
  cases gs with
  | nil => exact ⟨c, cs, hd, hc⟩
  | cons h gs => exact ⟨c, cs ++ ':' :: joined (h :: gs), by rw [joined_cons, hd]; rfl, hc⟩

/-! ### Groups between colons -/

theorem split_joined (g : UInt16) (gs : List UInt16) :
    Text.split ':' (joined (g :: gs)) = (g :: gs).map digits := by
  induction gs generalizing g with
  | nil => exact split_of_not_mem (colon_not_mem_digits g)
  | cons h gs ih =>
    rw [joined_cons, split_append (colon_not_mem_digits g), ih h]
    rfl

theorem pieces?_digits (dotted : Bool) (gs : List UInt16) : pieces? dotted (gs.map digits) = some gs := by
  induction gs with
  | nil => rfl
  | cons g gs ih =>
    cases gs with
    | nil => simp only [List.map_cons, List.map_nil, pieces?, group?_digits]
    | cons h gs =>
      simp only [List.map_cons] at ih
      simp only [List.map_cons, pieces?, group?_digits, ih]

theorem groups?_joined (dotted : Bool) (gs : List UInt16) : groups? dotted (joined gs) = some gs := by
  cases gs with
  | nil => rfl
  | cons g gs =>
    obtain ⟨c, cs, hcons, _⟩ := joined_eq_cons g gs
    have hne : joined (g :: gs) ≠ [] := by
      rw [hcons]
      simp
    rw [groups?, if_neg hne, split_joined, pieces?_digits]

/-! ### The first pair of colons -/

theorem cutPair_cons {c : Char} (hc : c ≠ ':') (rest : List Char) :
    cutPair (c :: rest) = (cutPair rest).map fun p => (c :: p.1, p.2) := by
  rw [cutPair]
  rintro _ rfl
  exact fun _ => hc rfl

theorem cutPair_append {cs : List Char} (h : ':' ∉ cs) (rest : List Char) :
    cutPair (cs ++ rest) = (cutPair rest).map fun p => (cs ++ p.1, p.2) := by
  induction cs with
  | nil => simp
  | cons c cs ih =>
    obtain ⟨hc, hcs⟩ := not_or.1 (mt List.mem_cons.2 h)
    rw [List.cons_append, cutPair_cons (Ne.symm hc), ih hcs, Option.map_map]
    rfl

theorem cutPair_colon {c : Char} (hc : c ≠ ':') (rest : List Char) :
    cutPair (':' :: c :: rest) = (cutPair (c :: rest)).map fun p => (':' :: p.1, p.2) := by
  rw [cutPair]
  intro _ _ h
  exact hc (List.cons.inj h).1

/-- Joined groups hold no pair of colons, so a pair after them is the first. -/
theorem cutPair_joined (gs : List UInt16) (after : List Char) :
    cutPair (joined gs ++ ':' :: ':' :: after) = some (joined gs, after) := by
  induction gs with
  | nil => rfl
  | cons g gs ih =>
    cases gs with
    | nil =>
      have hjoined : joined [g] = digits g := rfl
      rw [hjoined, cutPair_append (colon_not_mem_digits g)]
      simp [cutPair]
    | cons h gs =>
      obtain ⟨c, cs, hcons, hc⟩ := joined_eq_cons h gs
      rw [joined_cons, List.append_assoc, cutPair_append (colon_not_mem_digits g)]
      rw [hcons] at ih ⊢
      rw [List.cons_append, List.cons_append, cutPair_colon hc]
      rw [List.cons_append] at ih
      rw [ih]
      rfl

theorem cutPair_joined_eq_none (gs : List UInt16) : cutPair (joined gs) = none := by
  induction gs with
  | nil => rfl
  | cons g gs ih =>
    cases gs with
    | nil =>
      have hjoined : joined [g] = digits g ++ [] := (List.append_nil _).symm
      rw [hjoined, cutPair_append (colon_not_mem_digits g)]
      rfl
    | cons h gs =>
      obtain ⟨c, cs, hcons, hc⟩ := joined_eq_cons h gs
      rw [joined_cons, cutPair_append (colon_not_mem_digits g)]
      rw [hcons] at ih ⊢
      rw [cutPair_colon hc, ih]
      rfl

/-! ### The run that is left out -/

theorem take_zerosAhead (gs : List UInt16) :
    gs.take (zerosAhead gs) = List.replicate (zerosAhead gs) 0 := by
  induction gs with
  | nil => rfl
  | cons g gs ih =>
    simp only [zerosAhead, List.takeWhile_cons] at ih ⊢
    by_cases hg : g = 0
    · simp [hg, List.replicate_succ, ih]
    · simp [hg]

theorem zerosAhead_le (gs : List UInt16) : zerosAhead gs ≤ gs.length :=
  (List.takeWhile_prefix _).length_le

theorem longestRun_spec (i : Nat) (gs : List UInt16) :
    ∃ k, (longestRun i gs).1 = i + k ∧ k + (longestRun i gs).2 ≤ gs.length ∧
      (gs.drop k).take (longestRun i gs).2 = List.replicate (longestRun i gs).2 0 := by
  induction gs generalizing i with
  | nil => exact ⟨0, rfl, Nat.le_refl _, rfl⟩
  | cons g gs ih =>
    obtain ⟨k, hstart, hle, hzeros⟩ := ih (i + 1)
    simp only [longestRun]
    split
    · exact ⟨0, rfl, by rw [Nat.zero_add]; exact zerosAhead_le _, take_zerosAhead _⟩
    · refine ⟨k + 1, by omega, ?_, hzeros⟩
      rw [List.length_cons]
      omega

/-! ### The whole -/

theorem eq_of_mapped? {a : IPv6} {v4 : IPv4} (h : a.mapped? = some v4) :
    a.groups = [0, 0, 0, 0, 0, 0xffff, v4.high, v4.low] := by
  simp only [mapped?] at h
  split at h
  · rename_i high low hgroups
    cases h
    rw [hgroups, IPv4.high_ofHalves, IPv4.low_ofHalves]
  · cases h

theorem pieces?_mapped (v4 : IPv4) :
    pieces? true [['f', 'f', 'f', 'f'], v4.chars] = some [0xffff, v4.high, v4.low] := by
  have hgroup : group? v4.chars = none := by
    rw [group?, if_neg (Nat.not_le.2 v4.lt_length_chars)]
  have hfirst : group? ['f', 'f', 'f', 'f'] = some 0xffff := rfl
  simp only [pieces?, hfirst, hgroup, if_true, IPv4.ofChars?_chars, Option.map_some]

theorem ofChars?_mapped {a : IPv6} {v4 : IPv4} (h : a.mapped? = some v4) :
    ofChars? a.chars = some a := by
  have hgroups := eq_of_mapped? h
  have hsplit : Text.split ':' ('f' :: 'f' :: 'f' :: 'f' :: ':' :: v4.chars) =
      [['f', 'f', 'f', 'f'], v4.chars] := by
    have hword : ':' ∉ ['f', 'f', 'f', 'f'] := by decide
    have happend := split_append hword v4.chars
    rwa [split_of_not_mem v4.colon_not_mem_chars] at happend
  have htail : groups? true ('f' :: 'f' :: 'f' :: 'f' :: ':' :: v4.chars) =
      some [0xffff, v4.high, v4.low] := by
    rw [groups?, if_neg (by simp), hsplit, pieces?_mapped]
  have hchars : a.chars = ':' :: ':' :: 'f' :: 'f' :: 'f' :: 'f' :: ':' :: v4.chars := by
    simp only [chars, h]
  have hhead : groups? false [] = some [] := rfl
  obtain ⟨gs, hlength⟩ := a
  cases hgroups
  rw [hchars, ofChars?, cutPair]
  simp only [hhead, htail]
  rfl

theorem ofChars?_joined (a : IPv6) : ofChars? (joined a.groups) = some a := by
  rw [ofChars?, cutPair_joined_eq_none]
  simp only [groups?_joined, Option.bind_some, ofGroups?, dif_pos a.length_groups]

/-- Two or more zero groups may be left out. -/
theorem ofChars?_run (a : IPv6) {k n : Nat} (hn : 1 < n) (hle : k + n ≤ a.groups.length)
    (hzeros : (a.groups.drop k).take n = List.replicate n 0) :
    ofChars? (joined (a.groups.take k) ++ ':' :: ':' :: joined (a.groups.drop (k + n))) = some a := by
  obtain ⟨gs, hlength⟩ := a
  simp only at hle hzeros ⊢
  rw [hlength] at hle
  have hhead : (gs.take k).length = k := by rw [List.length_take]; omega
  have htail : (gs.drop (k + n)).length = 8 - (k + n) := by rw [List.length_drop, hlength]
  have hrun : 8 - (gs.take k).length - (gs.drop (k + n)).length = n := by omega
  have hgroups : gs.take k ++ List.replicate n 0 ++ gs.drop (k + n) = gs := by
    rw [← hzeros, ← List.drop_drop, List.append_assoc, List.take_append_drop, List.take_append_drop]
  rw [ofChars?, cutPair_joined]
  simp only [groups?_joined]
  rw [if_pos (by omega), hrun, hgroups, ofGroups?, dif_pos hlength]

theorem ofChars?_chars (a : IPv6) : ofChars? a.chars = some a := by
  cases h : a.mapped? with
  | some v4 => exact ofChars?_mapped h
  | none =>
    obtain ⟨k, hstart, hle, hzeros⟩ := longestRun_spec 0 a.groups
    rw [Nat.zero_add] at hstart
    simp only [chars, h, hstart]
    split
    · rename_i hn
      exact ofChars?_run a hn hle hzeros
    · exact ofChars?_joined a

theorem colon_mem_chars (a : IPv6) : ':' ∈ a.chars := by
  cases h : a.mapped? with
  | some v4 => simp [chars, h]
  | none =>
    simp only [chars, h]
    split
    · simp
    · obtain ⟨gs, hlength⟩ := a
      match gs, hlength with
      | g :: k :: gs, _ => simp [joined_cons]

end IPv6

/-! ## Hosts -/

namespace AddressKind

/-- Not a name that spells an internet address. -/
def Proper : AddressKind → Prop
  | .name s => ofText s = .name s
  | _ => True

theorem proper_ofText (s : String) : (ofText s).Proper := by
  cases h : ofText s with
  | name t =>
    have ht : t = s := by
      simp only [ofText] at h
      split at h
      · cases h
      · split at h
        · cases h
        · cases h
          rfl
    rw [ht] at h ⊢
    exact h
  | ipv4 a => trivial
  | ipv6 a => trivial

theorem unwrapped_of_not_mem {cs : List Char} (h : '[' ∉ cs) : unwrapped cs = cs := by
  unfold unwrapped
  split
  · exact absurd List.mem_cons_self h
  · rfl

/-- The part of an address before its port. -/
def shown : AddressKind → List Char
  | .ipv6 a => '[' :: a.chars ++ [']']
  | host => host.text.toList

theorem ofText_shown {host : AddressKind} (h : host.Proper) : ofText (String.ofList host.shown) = host := by
  cases host with
  | name s =>
    have hs : String.ofList (AddressKind.name s).shown = s := String.ofList_toList
    rw [hs]
    exact h
  | ipv4 a =>
    have hshown : (AddressKind.ipv4 a).shown = a.chars := String.toList_ofList
    have hunwrapped : unwrapped a.chars = a.chars :=
      unwrapped_of_not_mem (by simp [IPv4.chars, IPv4.bracket_not_mem])
    simp only [ofText, hshown, String.toList_ofList, hunwrapped, IPv4.ofChars?_chars]
  | ipv6 a =>
    have hunwrapped : unwrapped ('[' :: a.chars ++ [']']) = a.chars := by
      simp [unwrapped]
    simp only [ofText, shown, String.toList_ofList, hunwrapped, IPv4.ofChars?_of_colon a.colon_mem_chars,
      IPv6.ofChars?_chars]

end AddressKind

namespace Address

theorem exists_authority_of_parse {text : String} {a : Address} (h : parse text = .ok a) :
    ∃ cs authority, Authority.ofChars cs = .ok authority ∧ ofAuthority authority = .ok a := by
  have hread : ∀ cs, parse.read cs = .ok a →
      ∃ cs authority, Authority.ofChars cs = .ok authority ∧ ofAuthority authority = .ok a := by
    intro cs h
    simp only [parse.read] at h
    split at h
    · cases h
    · rename_i authority hauthority
      exact ⟨cs, authority, hauthority, h⟩
  simp only [parse] at h
  split at h
  · exact hread _ h
  · split at h
    · cases h
    · exact hread _ h

theorem host_of_ofAuthority {authority : Authority} {a : Address} (h : ofAuthority authority = .ok a) :
    (∃ cs, authority.host = .name cs ∧ a.host = .ofText (String.ofList cs)) ∨ ∃ v6, a.host = .ipv6 v6 := by
  simp only [ofAuthority] at h
  split at h
  · cases h
  · split at h
    · cases h
    · cases h
    · rename_i cs _ hhost _
      cases h
      exact .inl ⟨cs, hhost, rfl⟩
    · cases h
      exact .inr ⟨_, rfl⟩

theorem proper_of_parse {text : String} {a : Address} (h : parse text = .ok a) : a.host.Proper := by
  obtain ⟨_, _, _, hauthority⟩ := exists_authority_of_parse h
  rcases host_of_ofAuthority hauthority with ⟨cs, _, hhost⟩ | ⟨v6, hhost⟩ <;> rw [hhost]
  · exact AddressKind.proper_ofText _
  · trivial

theorem toList_text (a : Address) :
    a.text.toList = a.host.shown ++ ':' :: Nat.toDigits 10 a.port.toNat := by
  cases h : a.host <;> simp [text, h, AddressKind.shown]

theorem text_inj {a b : Address} (ha : a.host.Proper) (hb : b.host.Proper) (h : a.text = b.text) :
    a = b := by
  have hlist : a.host.shown ++ ':' :: Nat.toDigits 10 a.port.toNat =
      b.host.shown ++ ':' :: Nat.toDigits 10 b.port.toNat := by
    rw [← toList_text, ← toList_text, h]
  have hsplit := congrArg (Text.splitLast ':') hlist
  rw [splitLast_append (IPv4.colon_not_mem _), splitLast_append (IPv4.colon_not_mem _)] at hsplit
  obtain ⟨hshown, hport⟩ := Prod.mk.inj (Option.some.inj hsplit)
  have hhost : a.host = b.host := by
    rw [← AddressKind.ofText_shown ha, ← AddressKind.ofText_shown hb, hshown]
  have hport : a.port = b.port := by
    have hread := congrArg Text.decimal? hport
    rw [decimal?_toDigits, decimal?_toDigits] at hread
    exact UInt16.toNat_inj.1 (Option.some.inj hread)
  cases a
  cases b
  cases hhost
  cases hport
  rfl

end Address

/-! ## Assignments that are read -/

variable {ν α : Type} {f : Format ν}

theorem Format.exists_of_each {read : ν → Option α} {vs : List ν} {as : List α}
    (h : each read vs = some as) : ∀ a ∈ as, ∃ v, read v = some a := by
  induction vs generalizing as with
  | nil =>
    cases h
    simp
  | cons v vs ih =>
    simp only [each] at h
    split at h
    · rename_i b bs hb hbs
      cases h
      intro a ha
      rcases List.mem_cons.1 ha with rfl | ha
      · exact ⟨v, hb⟩
      · exact ih hbs a ha
    · cases h

theorem Format.exists_of_listOf {read : ν → Option α} {fields : List (String × ν)} {name : String}
    {as : List α} (h : withDefault fields name [] (f.listOf read) = some as) :
    ∀ a ∈ as, ∃ v, read v = some a := by
  simp only [withDefault] at h
  split at h
  · cases h
    simp
  · simp only [listOf] at h
    split at h
    · cases h
    · exact exists_of_each h

theorem Endpoint.proper_of_decode {v : ν} {e : Endpoint} (h : decode f v = some e) :
    e.address.host.Proper := by
  simp only [decode, Option.bind_eq_bind, Option.bind_eq_some_iff, Option.pure_def,
    Option.some.injEq] at h
  obtain ⟨fields, _, address, haddress, _, _, _, _, _, _, _, _, _, _, _, _, rfl⟩ := h
  simp only [Format.required] at haddress
  split at haddress
  · cases haddress
  · simp only [Address.decode] at haddress
    split at haddress
    · cases haddress
    · split at haddress
      · rename_i hparse
        cases haddress
        exact Address.proper_of_parse hparse
      · cases haddress

theorem EndpointGroup.proper_of_decode {v : ν} {g : EndpointGroup} (h : decode f v = some g) :
    ∀ e ∈ g.endpoints, e.address.host.Proper := by
  simp only [decode, Option.bind_eq_bind, Option.bind_eq_some_iff, Option.pure_def,
    Option.some.injEq] at h
  obtain ⟨fields, _, _, _, _, _, _, _, endpoints, hendpoints, rfl⟩ := h
  intro e he
  obtain ⟨w, hw⟩ := Format.exists_of_listOf hendpoints e he
  exact Endpoint.proper_of_decode hw

/-- An assignment that is read names no host by a name that spells an internet address. -/
theorem Assignment.proper_of_decode {v : ν} {a : Assignment} (h : decode f v = some a) :
    ∀ m ∈ a.members, m.2.address.host.Proper := by
  simp only [decode, Option.bind_eq_bind, Option.bind_eq_some_iff, Option.pure_def,
    Option.some.injEq] at h
  obtain ⟨fields, _, groups, hgroups, _, _, rfl⟩ := h
  intro m hm
  obtain ⟨g, hg, hm⟩ := List.mem_flatMap.1 hm
  obtain ⟨e, he, rfl⟩ := List.mem_map.1 hm
  obtain ⟨w, hw⟩ := Format.exists_of_listOf hgroups g hg
  exact EndpointGroup.proper_of_decode hw e he

end Roster

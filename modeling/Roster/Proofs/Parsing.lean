import Roster.Proofs.Spelling
import Mathlib.Data.List.TakeWhile

/-!
# Roster.Proofs.Parsing

The text of an address that was read is read as that address.

* `Authority.Plain` — a character that is kept as it is in a name; what `readHost` makes of a name has
  none but such.
* `Authority.Inner` — a character that ends nothing and is not left out, wherever it stands in front of a
  port.
* `AddressKind.Plain` — a host whose text is a name of plain characters, or an address in brackets.
* `Address.parse_text` — an address with such a host is read back from its text.
-/

namespace Roster

open Text

namespace Authority

/-! ## Plain characters -/

/-- A character that may stand in a name and is printed as it is. -/
def Plain (c : Char) : Prop := forbidden c = false ∧ 0x20 < c.toNat ∧ c.toNat < 0x7f

instance (c : Char) : Decidable (Plain c) := by
  unfold Plain
  infer_instance

theorem Plain.encodeChar {c : Char} (h : Plain c) : encodeChar c = [c] := by
  rw [Authority.encodeChar, if_pos ⟨Nat.le_of_lt h.2.1, h.2.2⟩]

theorem plain_point : Plain '.' := by decide

theorem plain_digitChar : ∀ d, d < 16 → Plain (Nat.digitChar d) := by decide

theorem plain_toUpper : ∀ d, d < 16 → Plain (Nat.digitChar d).toUpper := by decide

theorem plain_percent {b : UInt8} : ∀ c ∈ percent b, Plain c := by
  have hb := b.toNat_lt
  intro c hc
  simp only [percent, List.mem_cons, List.not_mem_nil, or_false] at hc
  rcases hc with rfl | rfl | rfl
  · decide
  · exact plain_toUpper _ (by omega)
  · exact plain_toUpper _ (by omega)

theorem plain_encodeChar {c : Char} (h : forbidden c = false) : ∀ d ∈ encodeChar c, Plain d := by
  intro d hd
  rw [encodeChar] at hd
  split at hd
  case isTrue hrange =>
    rw [List.mem_singleton.1 hd]
    have hspace : c.toNat ≠ 0x20 := by
      intro heq
      have hc : c = ' ' := Char.toNat_inj.1 heq
      rw [hc] at h
      exact absurd h (by decide)
    exact ⟨h, Nat.lt_of_le_of_ne hrange.1 (Ne.symm hspace), hrange.2⟩
  case isFalse =>
    obtain ⟨b, _, hd⟩ := List.mem_flatMap.1 hd
    exact plain_percent d hd

theorem encodeChar_ne_nil (c : Char) : encodeChar c ≠ [] := by
  rw [encodeChar]
  split
  · exact List.cons_ne_nil _ _
  · intro hnil
    have hbytes : String.utf8EncodeChar c = [] :=
      List.eq_nil_iff_forall_not_mem.2 fun b hb =>
        absurd (List.flatMap_eq_nil_iff.1 hnil b hb) (List.cons_ne_nil _ _)
    have hlength := congrArg List.length hbytes
    rw [String.length_utf8EncodeChar] at hlength
    exact absurd hlength (Nat.ne_of_gt c.utf8Size_pos)

theorem readHost_of_plain {cs : List Char} (hne : cs ≠ []) (h : ∀ c ∈ cs, Plain c) :
    readHost cs = .ok (.name cs) := by
  have hnone : cs.any forbidden = false := List.any_eq_false.2 fun c hc => by simp [(h c hc).1]
  have hsame : cs.flatMap encodeChar = cs := by
    rw [List.flatMap_congr fun c hc => (h c hc).encodeChar]
    exact List.flatMap_singleton' cs
  unfold readHost
  split
  · exact absurd rfl hne
  · exact absurd (h '[' List.mem_cons_self).1 (by decide)
  · rw [hnone, hsame]
    rfl

theorem plain_of_readHost {cs name : List Char} (h : readHost cs = .ok (.name name)) :
    name ≠ [] ∧ ∀ c ∈ name, Plain c := by
  unfold readHost at h
  split at h
  · cases h
  · split at h
    · split at h <;> cases h
    · cases h
  · rename_i hne _
    split at h
    · cases h
    · rename_i hnone
      cases h
      refine ⟨fun hnil => ?_, fun d hd => ?_⟩
      · obtain ⟨c, rest, rfl⟩ := List.exists_cons_of_ne_nil hne
        exact encodeChar_ne_nil c (List.flatMap_eq_nil_iff.1 hnil c List.mem_cons_self)
      · obtain ⟨c, hc, hd⟩ := List.mem_flatMap.1 hd
        have hc := List.any_eq_false.1 (Bool.eq_false_iff.2 hnone) c hc
        exact plain_encodeChar (Bool.eq_false_iff.2 hc) d hd

theorem exists_readHost_of_ofChars {text : List Char} {a : Authority} (h : ofChars text = .ok a) :
    ∃ cs, readHost cs = .ok a.host := by
  simp only [ofChars] at h
  split at h
  · cases h
  · rename_i credited cs _
    split at h
    · cases h
    · rename_i host hhost
      refine ⟨_, hhost.trans (congrArg Except.ok ?_)⟩
      split at h
      · cases h
      · split at h
        · cases h
        · cases h
          rfl
      · split at h
        · cases h
        · cases h
          rfl
      · cases h
        rfl

/-! ## Characters in front of a port -/

/-- A character that ends nothing and is not left out. -/
def Inner (c : Char) : Prop := 0x20 < c.toNat ∧ endsAuthority c = false ∧ c ≠ '@'

instance (c : Char) : Decidable (Inner c) := by
  unfold Inner
  infer_instance

theorem Plain.inner {c : Char} (h : Plain c) : Inner c := by
  have hforbidden := h.1
  refine ⟨h.2.1, ?_, ?_⟩
  · simp only [forbidden, Bool.or_eq_false_iff] at hforbidden
    simp only [endsAuthority, hforbidden, Bool.or_self]
  · rintro rfl
    exact absurd hforbidden (by decide)

theorem dropTrailing_of_inner {cs : List Char} (h : ∀ c ∈ cs, Inner c) : dropTrailing cs = cs := by
  have hhead : cs.reverse.dropWhile (fun c => c.toNat ≤ 0x20) = cs.reverse := by
    cases hrev : cs.reverse with
    | nil => rfl
    | cons c rest =>
      have hc : c ∈ cs := List.mem_reverse.1 (hrev ▸ List.mem_cons_self)
      exact List.dropWhile_cons_of_neg (by simpa using (h c hc).1)
  rw [dropTrailing, hhead, List.reverse_reverse]

theorem dropBreaks_of_inner {cs : List Char} (h : ∀ c ∈ cs, Inner c) : dropBreaks cs = cs := by
  refine List.filter_eq_self.2 fun c hc => ?_
  have hspace := (h c hc).1
  cases hbreak : isBreak c with
  | false => rfl
  | true =>
    simp only [isBreak, Bool.or_eq_true, decide_eq_true_eq] at hbreak
    rcases hbreak with (rfl | rfl) | rfl <;> exact absurd hspace (by decide)

theorem credentials_of_inner {cs : List Char} (h : ∀ c ∈ cs, Inner c) : credentials cs = .ok (false, cs) := by
  have hall : cs.takeWhile (fun c => !endsAuthority c) = cs :=
    List.takeWhile_eq_self_iff.2 fun c hc => by simp [(h c hc).2.1]
  have hsign : '@' ∉ cs := fun hmem => (h '@' hmem).2.2 rfl
  rw [credentials, hall, splitLast_of_not_mem hsign]

theorem hostSpan_plain {cs : List Char} (h : ∀ c ∈ cs, Plain c) (rest : List Char) :
    hostSpan false (cs ++ ':' :: rest) = (cs, ':' :: rest) := by
  induction cs with
  | nil => rfl
  | cons c cs ih =>
    obtain ⟨hc, hcs⟩ := List.forall_mem_cons.1 h
    have hends : endsAuthority c = false := hc.inner.2.1
    have hcolon : c ≠ ':' := by
      rintro rfl
      exact absurd hc.1 (by decide)
    have hbracket : c ≠ '[' := by
      rintro rfl
      exact absurd hc.1 (by decide)
    simp [hostSpan, hends, hcolon, hbracket, ih hcs]

theorem hostSpan_brackets {cs : List Char} (h : ∀ c ∈ cs, Inner c ∧ c ≠ ']') (rest : List Char) :
    hostSpan false ('[' :: cs ++ ']' :: ':' :: rest) = ('[' :: cs ++ [']'], ':' :: rest) := by
  have hinside : hostSpan true (cs ++ ']' :: ':' :: rest) = (cs ++ [']'], ':' :: rest) := by
    induction cs with
    | nil => rfl
    | cons c cs ih =>
      obtain ⟨⟨hc, hbracket⟩, hcs⟩ := List.forall_mem_cons.1 h
      simp [hostSpan, hc.2.1, hbracket, ih hcs]
  have hopen : endsAuthority '[' = false := by decide
  simp [hostSpan, hopen, hinside]

theorem readPort_toDigits (port : UInt16) :
    readPort (Nat.toDigits 10 port.toNat) = .ok (some port, []) := by
  have hdigits : ∀ c ∈ Nat.toDigits 10 port.toNat, c.isDigit = true := fun c hc =>
    Nat.isDigit_of_mem_toDigits (by decide) (by decide) hc
  have hvalue : decimal (Nat.toDigits 10 port.toNat) = port.toNat :=
    Nat.ofDigitChars_toDigits (by decide) (by decide)
  have hle : ¬ 65535 < port.toNat := Nat.not_lt.2 (Nat.le_of_lt_succ port.toNat_lt)
  rw [readPort, List.takeWhile_eq_self_iff.2 hdigits, List.dropWhile_eq_nil_iff.2 hdigits, hvalue]
  simp [hle, Nat.toDigits_ne_nil]

theorem inner_append_port {shown : List Char} (h : ∀ c ∈ shown, Inner c) (port : UInt16) :
    ∀ c ∈ shown ++ ':' :: Nat.toDigits 10 port.toNat, Inner c := by
  refine List.forall_mem_append.2 ⟨h, List.forall_mem_cons.2 ⟨by decide, fun c hc => ?_⟩⟩
  obtain ⟨d, hd, rfl⟩ := mem_toDigits (by decide) hc
  exact (plain_digitChar d (by omega)).inner

theorem ofChars_append {shown : List Char} {host : Host} {port : UInt16}
    (hinner : ∀ c ∈ shown, Inner c)
    (hspan : ∀ rest, hostSpan false (shown ++ ':' :: rest) = (shown, ':' :: rest))
    (hhost : readHost shown = .ok host) (hpresent : host ≠ .absent) :
    ofChars (shown ++ ':' :: Nat.toDigits 10 port.toNat) = .ok ⟨host, some port, []⟩ := by
  have hall := inner_append_port hinner port
  rw [ofChars, dropTrailing_of_inner hall, dropBreaks_of_inner hall, credentials_of_inner hall]
  simp only [hspan, hhost]
  cases host with
  | absent => exact absurd rfl hpresent
  | name cs => simp only [readPort_toDigits]
  | ipv6 a => simp only [readPort_toDigits]

theorem ofChars_plain {cs : List Char} (hne : cs ≠ []) (h : ∀ c ∈ cs, Plain c) (port : UInt16) :
    ofChars (cs ++ ':' :: Nat.toDigits 10 port.toNat) = .ok ⟨.name cs, some port, []⟩ :=
  ofChars_append (fun c hc => (h c hc).inner) (hostSpan_plain h) (readHost_of_plain hne h)
    (fun heq => by cases heq)

end Authority

/-! ## Internet addresses -/

theorem IPv4.plain_chars (a : IPv4) : ∀ c ∈ a.chars, Authority.Plain c := by
  have hdigits : ∀ n, ∀ c ∈ Nat.toDigits 10 n, Authority.Plain c := fun n c hc => by
    obtain ⟨d, hd, rfl⟩ := mem_toDigits (by decide) hc
    exact Authority.plain_digitChar d (by omega)
  simp only [chars, List.forall_mem_append, List.forall_mem_cons]
  exact ⟨⟨⟨hdigits _, Authority.plain_point, hdigits _⟩, Authority.plain_point, hdigits _⟩,
    Authority.plain_point, hdigits _⟩

namespace IPv6

/-- Digits, points and colons: what may stand in brackets. -/
def Within (c : Char) : Prop := Authority.Plain c ∨ c = ':'

theorem Within.inner {c : Char} (h : Within c) : Authority.Inner c ∧ c ≠ ']' := by
  rcases h with h | rfl
  · refine ⟨h.inner, ?_⟩
    rintro rfl
    exact absurd h.1 (by decide)
  · decide

theorem within_joined (gs : List UInt16) : ∀ c ∈ joined gs, Within c := by
  have hdigits : ∀ g, ∀ c ∈ digits g, Within c := fun g c hc => by
    obtain ⟨d, hd, rfl⟩ := mem_toDigits (by decide) hc
    exact .inl (Authority.plain_digitChar d hd)
  induction gs with
  | nil => simp [joined]
  | cons g gs ih =>
    cases gs with
    | nil => exact hdigits g
    | cons k gs =>
      rw [joined_cons]
      exact List.forall_mem_append.2 ⟨hdigits g, List.forall_mem_cons.2 ⟨.inr rfl, ih⟩⟩

theorem within_chars (a : IPv6) : ∀ c ∈ a.chars, Within c := by
  cases h : a.mapped? with
  | some v4 =>
    simp only [chars, h, List.forall_mem_cons]
    have hletter : Within 'f' := .inl (by decide)
    exact ⟨.inr rfl, .inr rfl, hletter, hletter, hletter, hletter, .inr rfl,
      fun c hc => .inl (v4.plain_chars c hc)⟩
  | none =>
    simp only [chars, h]
    split
    · exact List.forall_mem_append.2 ⟨within_joined _,
        List.forall_mem_cons.2 ⟨.inr rfl, List.forall_mem_cons.2 ⟨.inr rfl, within_joined _⟩⟩⟩
    · exact within_joined _

theorem inner_brackets (a : IPv6) : ∀ c ∈ '[' :: a.chars ++ [']'], Authority.Inner c := by
  refine List.forall_mem_append.2 ⟨List.forall_mem_cons.2 ⟨by decide, fun c hc => ?_⟩,
    List.forall_mem_singleton.2 (by decide)⟩
  exact (a.within_chars c hc).inner.1

end IPv6

theorem Authority.ofChars_ipv6 (a : IPv6) (port : UInt16) :
    ofChars ('[' :: a.chars ++ [']'] ++ ':' :: Nat.toDigits 10 port.toNat) =
      .ok ⟨.ipv6 a, some port, []⟩ := by
  have hspan : ∀ rest, hostSpan false ('[' :: a.chars ++ [']'] ++ ':' :: rest) =
      ('[' :: a.chars ++ [']'], ':' :: rest) := fun rest => by
    rw [List.append_assoc, List.singleton_append]
    exact hostSpan_brackets (fun c hc => (a.within_chars c hc).inner) rest
  have hhost : readHost ('[' :: a.chars ++ [']']) = .ok (.ipv6 a) := by
    simp [readHost, a.ofChars?_chars]
  exact ofChars_append a.inner_brackets hspan hhost (fun heq => by cases heq)

/-! ## Addresses -/

def AddressKind.Plain : AddressKind → Prop
  | .name s => s.toList ≠ [] ∧ ∀ c ∈ s.toList, Authority.Plain c
  | _ => True

theorem AddressKind.plain_ofText {cs : List Char} (hne : cs ≠ []) (h : ∀ c ∈ cs, Authority.Plain c) :
    (ofText (String.ofList cs)).Plain := by
  simp only [ofText]
  split
  · trivial
  · split
    · trivial
    · simp only [Plain, String.toList_ofList]
      exact ⟨hne, h⟩

namespace Address

theorem plain_of_parse {text : String} {a : Address} (h : parse text = .ok a) : a.host.Plain := by
  obtain ⟨_, authority, hchars, hauthority⟩ := exists_authority_of_parse h
  rcases host_of_ofAuthority hauthority with ⟨cs, hname, hhost⟩ | ⟨v6, hhost⟩ <;> rw [hhost]
  · obtain ⟨_, hread⟩ := Authority.exists_readHost_of_ofChars hchars
    rw [hname] at hread
    obtain ⟨hne, hplain⟩ := Authority.plain_of_readHost hread
    exact AddressKind.plain_ofText hne hplain
  · trivial

theorem inner_shown {host : AddressKind} (h : host.Plain) : ∀ c ∈ host.shown, Authority.Inner c := by
  cases host with
  | name s => exact fun c hc => (h.2 c hc).inner
  | ipv4 a =>
    have hshown : (AddressKind.ipv4 a).shown = a.chars := String.toList_ofList
    rw [hshown]
    exact fun c hc => (a.plain_chars c hc).inner
  | ipv6 a => exact a.inner_brackets

theorem ofAuthority_name (cs : List Char) (port : UInt16) :
    ofAuthority ⟨.name cs, some port, []⟩ = .ok ⟨.ofText (String.ofList cs), port⟩ := rfl

theorem read_text {a : Address} (hproper : a.host.Proper) (hplain : a.host.Plain) :
    parse.read a.text.toList = .ok a := by
  have hhost := AddressKind.ofText_shown hproper
  rw [toList_text, parse.read]
  obtain ⟨host, port⟩ := a
  cases host with
  | name s =>
    have hchars : Authority.ofChars ((AddressKind.name s).shown ++ ':' :: Nat.toDigits 10 port.toNat) =
        .ok ⟨.name (AddressKind.name s).shown, some port, []⟩ :=
      Authority.ofChars_plain hplain.1 hplain.2 port
    simp only [hchars, ofAuthority_name, hhost]
  | ipv4 v4 =>
    have hshown : (AddressKind.ipv4 v4).shown = v4.chars := String.toList_ofList
    rw [hshown] at hhost ⊢
    have hne : v4.chars ≠ [] := List.ne_nil_of_length_pos (Nat.zero_lt_of_lt v4.lt_length_chars)
    simp only [Authority.ofChars_plain hne v4.plain_chars, ofAuthority_name, hhost]
  | ipv6 v6 =>
    have hchars : Authority.ofChars ((AddressKind.ipv6 v6).shown ++ ':' :: Nat.toDigits 10 port.toNat) =
        .ok ⟨.ipv6 v6, some port, []⟩ := Authority.ofChars_ipv6 v6 port
    simp only [hchars]
    rfl

theorem hasScheme_of_not_mem {cs : List Char} (h : '/' ∉ cs) : hasScheme cs = false := by
  induction cs with
  | nil => rfl
  | cons c cs ih =>
    unfold hasScheme
    split
    case h_1 heq => simp [heq] at h
    case h_2 heq =>
      cases heq
      exact ih fun hmem => h (List.mem_cons_of_mem c hmem)
    case h_3 => rfl

theorem parse_of_inner {text : String} (h : ∀ c ∈ text.toList, Authority.Inner c) :
    parse text = parse.read text.toList := by
  have hslash : '/' ∉ text.toList := fun hmem => absurd (h '/' hmem) (by decide)
  unfold parse
  split
  case h_1 rest htext => simp [htext] at hslash
  case h_2 => rw [hasScheme_of_not_mem hslash, if_neg Bool.false_ne_true]

/-- An address that was read is read back from its text. -/
theorem parse_text {text : String} {a : Address} (h : parse text = .ok a) : parse a.text = .ok a := by
  have hplain := plain_of_parse h
  have hinner : ∀ c ∈ a.text.toList, Authority.Inner c := by
    rw [toList_text]
    exact Authority.inner_append_port (inner_shown hplain) a.port
  rw [parse_of_inner hinner]
  exact read_text (proper_of_parse h) hplain

end Address

end Roster

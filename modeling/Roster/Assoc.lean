/-!
# Roster.Assoc

Association lists kept in increasing key order: the finite maps of this library.

* `find?`   — the value at a key.
* `insert`  — sets a key, keeping the order.
* `upsert`  — sets a key to a function of what was there.
* `erase`   — forgets a key.
* `ofList`  — later pairs win.

Every operation keeps the order (`Ordered`), and `ofList` changes no list that is in order. So two maps
with the same bindings are equal lists, and maps compare as lists do.
-/

namespace Roster.Assoc

variable {α β : Type} [Ord α]

def find? (k : α) : List (α × β) → Option β
  | [] => none
  | (a, b) :: rest => if compare k a = .eq then some b else find? k rest

def contains (k : α) (m : List (α × β)) : Bool :=
  (find? k m).isSome

def upsert (k : α) (f : Option β → β) : List (α × β) → List (α × β)
  | [] => [(k, f none)]
  | (a, b) :: rest =>
    match compare k a with
    | .lt => (k, f none) :: (a, b) :: rest
    | .eq => (k, f (some b)) :: rest
    | .gt => (a, b) :: upsert k f rest

def insert (k : α) (b : β) (m : List (α × β)) : List (α × β) :=
  upsert k (fun _ => b) m

def erase (k : α) : List (α × β) → List (α × β)
  | [] => []
  | (a, b) :: rest => if compare k a = .eq then erase k rest else (a, b) :: erase k rest

def ofList (ps : List (α × β)) : List (α × β) :=
  ps.foldl (fun m p => insert p.1 p.2 m) []

/-- Keys strictly increase along the list. -/
def Ordered (m : List (α × β)) : Prop :=
  m.Pairwise fun p q => compare p.1 q.1 = .lt

/-! ## What each operation does to `find?` -/

section Lemmas

variable {k j : α} {b : β} {m : List (α × β)}

theorem find?_insert_self [Std.ReflOrd α] : find? k (insert k b m) = some b := by
  induction m with
  | nil => simp [insert, upsert, find?]
  | cons p rest ih =>
    obtain ⟨a, v⟩ := p
    simp only [insert, upsert] at ih ⊢
    split
    · simp [find?]
    · simp [find?]
    · rename_i h
      simp [find?, h, ih]

theorem find?_insert_of_ne [Std.LawfulEqOrd α] (h : j ≠ k) :
    find? j (insert k b m) = find? j m := by
  have hne : compare j k ≠ .eq := fun e => h (Std.LawfulEqOrd.eq_of_compare e)
  induction m with
  | nil => simp [insert, upsert, find?, hne]
  | cons p rest ih =>
    obtain ⟨a, v⟩ := p
    simp only [insert, upsert] at ih ⊢
    split
    · simp [find?, hne]
    · rename_i e
      have : k = a := Std.LawfulEqOrd.eq_of_compare e
      subst this
      simp [find?, hne]
    · simp only [find?]
      split
      · rfl
      · exact ih

theorem find?_erase_self : find? k (erase k m) = none := by
  induction m with
  | nil => rfl
  | cons p rest ih =>
    obtain ⟨a, v⟩ := p
    simp only [erase]
    split
    · exact ih
    · rename_i h
      simp [find?, h, ih]

theorem find?_erase_of_ne [Std.LawfulEqOrd α] (h : j ≠ k) : find? j (erase k m) = find? j m := by
  induction m with
  | nil => rfl
  | cons p rest ih =>
    obtain ⟨a, v⟩ := p
    simp only [erase]
    split
    · rename_i e
      have : k = a := Std.LawfulEqOrd.eq_of_compare e
      subst this
      have hne : compare j k ≠ .eq := fun e => h (Std.LawfulEqOrd.eq_of_compare e)
      simp [find?, hne, ih]
    · simp only [find?, ih]

end Lemmas

/-! ## Order -/

section Order

variable {k : α} {b : β} {f : Option β → β} {m : List (α × β)} {p : α × β}

theorem mem_upsert (h : p ∈ upsert k f m) :
    p ∈ m ∨ p = (k, f none) ∨ ∃ q ∈ m, p = (k, f (some q.2)) := by
  induction m with
  | nil => simpa [upsert] using h
  | cons q rest ih =>
    obtain ⟨a, v⟩ := q
    simp only [upsert] at h
    split at h
    · rcases List.mem_cons.1 h with h | h
      · exact .inr (.inl h)
      · exact .inl h
    · rcases List.mem_cons.1 h with h | h
      · exact .inr (.inr ⟨(a, v), by simp, h⟩)
      · exact .inl (by simp [h])
    · rcases List.mem_cons.1 h with h | h
      · exact .inl (by simp [h])
      · rcases ih h with h | h | ⟨q, hq, h⟩
        · exact .inl (by simp [h])
        · exact .inr (.inl h)
        · exact .inr (.inr ⟨q, by simp [hq], h⟩)

theorem mem_insert (h : p ∈ insert k b m) : p = (k, b) ∨ p ∈ m := by
  rcases mem_upsert h with h | h | ⟨_, _, h⟩
  · exact .inr h
  · exact .inl h
  · exact .inl h

theorem mem_of_mem_ofList {ps : List (α × β)} (h : p ∈ ofList ps) : p ∈ ps := by
  suffices ∀ m, p ∈ ps.foldl (fun m p => insert p.1 p.2 m) m → p ∈ m ∨ p ∈ ps by
    simpa using this [] h
  clear h
  induction ps with
  | nil => intro m h; exact .inl h
  | cons q ps ih =>
    intro m h
    rcases ih _ h with h | h
    · rcases mem_insert h with h | h
      · exact .inr (by simp [h])
      · exact .inl h
    · exact .inr (by simp [h])

theorem Ordered.nil : Ordered ([] : List (α × β)) := List.Pairwise.nil

variable [Std.TransOrd α]

theorem Ordered.upsert (h : Ordered m) : Ordered (upsert k f m) := by
  induction m with
  | nil => simp [Assoc.upsert, Ordered]
  | cons q rest ih =>
    obtain ⟨a, v⟩ := q
    obtain ⟨ha, hrest⟩ := List.pairwise_cons.1 h
    simp only [Assoc.upsert]
    split
    · rename_i hk
      refine List.pairwise_cons.2 ⟨fun q hq => ?_, h⟩
      rcases List.mem_cons.1 hq with rfl | hq
      · exact hk
      · exact Std.TransCmp.lt_trans hk (ha q hq)
    · rename_i hk
      exact List.pairwise_cons.2 ⟨fun q hq => Std.TransCmp.lt_of_eq_of_lt hk (ha q hq), hrest⟩
    · rename_i hk
      refine List.pairwise_cons.2 ⟨fun q hq => ?_, ih hrest⟩
      have hak : compare a k = .lt := Std.OrientedCmp.lt_of_gt hk
      rcases mem_upsert hq with hq | rfl | ⟨_, _, rfl⟩
      · exact ha q hq
      · exact hak
      · exact hak

theorem Ordered.insert (h : Ordered m) : Ordered (insert k b m) := Ordered.upsert h

theorem ordered_ofList (ps : List (α × β)) : Ordered (ofList ps) := by
  suffices ∀ m, Ordered m → Ordered (ps.foldl (fun m p => Assoc.insert p.1 p.2 m) m) from
    this [] .nil
  induction ps with
  | nil => intro m h; exact h
  | cons p ps ih => intro m h; exact ih _ h.insert

theorem insert_of_lt (h : ∀ q ∈ m, compare q.1 k = .lt) : insert k b m = m ++ [(k, b)] := by
  induction m with
  | nil => rfl
  | cons q rest ih =>
    obtain ⟨a, v⟩ := q
    have hk : compare k a = .gt := Std.OrientedCmp.gt_of_lt (h (a, v) (by simp))
    have hrest := ih fun q hq => h q (by simp [hq])
    simp only [insert] at hrest
    simp [insert, upsert, hk, hrest]

theorem ofList_eq_self (h : Ordered m) : ofList m = m := by
  suffices ∀ done, Ordered (done ++ m) → m.foldl (fun m p => insert p.1 p.2 m) done = done ++ m from
    this [] h
  clear h
  induction m with
  | nil => intro done _; simp
  | cons p m ih =>
    intro done h
    have hp : ∀ q ∈ done, compare q.1 p.1 = .lt := fun q hq =>
      (List.pairwise_append.1 h).2.2 q hq p (by simp)
    have := ih (done ++ [p]) (by simpa using h)
    simpa [insert_of_lt hp] using this

end Order

end Roster.Assoc

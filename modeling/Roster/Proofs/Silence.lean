import Roster.Proofs.Intervening
import Roster.Proofs.Arranging

/-!
# Roster.Proofs.Silence

What never says that initialization is over: installing, whether by updates, batches or deliveries.

* `Silent`     — a change of a set of levels after which nobody was told that initialization is over.
* `silent_put`, `silent_updateAll`, `silent_rollout` — installing one level, a batch of them, and those
  that are delivered.
-/

namespace Roster

/-! ## Silence -/

namespace PrioritySet

variable {τ : Type} {ps qs rs : PrioritySet τ}

/-- What was written since does not say that initialization is over. -/
def Silent (ps qs : PrioritySet τ) : Prop :=
  ∃ new, qs.journal.events = ps.journal.events ++ new ∧ Event.initialized ∉ new

namespace Silent

theorem of_eq (h : qs.journal = ps.journal) : Silent ps qs :=
  ⟨[], by rw [h, List.append_nil], by simp⟩

theorem refl (ps : PrioritySet τ) : Silent ps ps := of_eq rfl

theorem trans (h₁ : Silent ps qs) (h₂ : Silent qs rs) : Silent ps rs := by
  obtain ⟨new, hnew, hsilent⟩ := h₁
  obtain ⟨more, hmore, hsilent'⟩ := h₂
  refine ⟨new ++ more, by rw [hmore, hnew, List.append_assoc], ?_⟩
  simp [hsilent, hsilent']

theorem count (h : Silent ps qs) :
    qs.journal.events.count .initialized = ps.journal.events.count .initialized := by
  obtain ⟨new, hnew, hsilent⟩ := h
  rw [hnew, List.count_append, List.count_eq_zero.2 hsilent, Nat.add_zero]

end Silent

theorem silent_notifyLevel (ps : PrioritySet τ) (p : Nat) (added removed : List HostId) :
    Silent ps (ps.notifyLevel p added removed) := by
  unfold notifyLevel
  split
  · exact .refl ps
  · obtain ⟨new, hnew, hreports, _⟩ := hears_callLevels p added removed _ ps
    refine ⟨new, hnew.events, fun hmem => ?_⟩
    obtain ⟨n, c, he⟩ := hreports _ hmem
    cases he

theorem silent_notifyMembers (ps : PrioritySet τ) (added removed : List HostId) :
    Silent ps (ps.notifyMembers added removed) := by
  refine ⟨_, (hears_notifyMembers added removed ps).events, fun hmem => ?_⟩
  obtain ⟨w, _, he⟩ := List.mem_map.1 hmem
  cases he

theorem silent_watchLevel (ps : PrioritySet τ) (p : Nat) (drops : List Nat) :
    Silent ps (ps.watchLevel p drops) := by
  unfold watchLevel
  split <;> exact .of_eq rfl

variable [Quantity τ]

theorem silent_putLevel (ps : PrioritySet τ) (u : Update) : Silent ps (ps.putLevel u) :=
  silent_notifyLevel (ps.install u) u.priority u.added u.removed

theorem silent_put (ps : PrioritySet τ) (store : HostStore) (u : Update) :
    Silent ps (ps.put store u) :=
  (Silent.of_eq (journal_ensureLevel (ps.reindex store u) u.priority u.factor?)).trans
    (silent_putLevel _ u)

theorem silent_update {store : HostStore} {u : Update} (h : ps.update store u = .done qs) :
    Silent ps qs := by
  rw [update_eq_done h]
  exact (silent_put ps store u).trans (silent_notifyMembers _ _ _)

theorem silent_updateLevel {u : Update} (h : ps.updateLevel u = .done qs) : Silent ps qs := by
  simp only [updateLevel] at h
  split at h
  · cases h
  · cases h
    exact silent_putLevel ps u

theorem silent_getOrCreate {p : Nat} {factor? : Option Nat} (h : ps.getOrCreate p factor? = .done qs) :
    Silent ps qs := by
  simp only [getOrCreate] at h
  split at h
  · cases h
    exact .refl ps
  · split at h
    · cases h
    · cases h
      exact .of_eq (journal_ensureLevel ps p factor?)

theorem silent_reloadLevel (ps : PrioritySet τ) (store : HostStore) (p : Nat) :
    Silent ps (Cluster.reloadLevel store ps p) := by
  unfold Cluster.reloadLevel
  split
  · exact .refl ps
  · exact (silent_put ps store _).trans (silent_notifyMembers _ _ _)

theorem silent_reloadAll (ps : PrioritySet τ) (store : HostStore) (levels : List Nat) :
    Silent ps (levels.foldl (Cluster.reloadLevel store) ps) := by
  induction levels generalizing ps with
  | nil => exact .refl ps
  | cons p levels ih => exact (silent_reloadLevel ps store p).trans (ih _)

end PrioritySet

namespace Batch

variable {τ : Type} [Quantity τ] {b b' : Batch τ}

theorem silent_update {store : HostStore} {u : Update} (h : b.update store u = .done b') :
    PrioritySet.Silent b.priorities b'.priorities := by
  simp only [update, PrioritySet.putChecked] at h
  split at h
  · cases h
  · split at h
    · cases h
    · cases h
      exact PrioritySet.silent_put _ store u

theorem silent_updateAll {store : HostStore} {us : List Update} {ps qs : PrioritySet τ}
    (h : updateAll store us ps = .done qs) : PrioritySet.Silent ps qs := by
  obtain ⟨b, heach, rfl⟩ := Attempt.map_eq_done h
  have hb : PrioritySet.Silent ps b.priorities :=
    Attempt.each_keeps (P := fun b => PrioritySet.Silent ps b.priorities)
      (fun _ _ _ _ hb hu => hb.trans (silent_update hu)) (.refl ps) heach
  exact hb.trans (PrioritySet.silent_notifyMembers _ _ _)

end Batch

namespace DynamicCluster

variable {τ : Type} [Quantity τ]

theorem silent_rolloutLevel {d : Delivery} {p : Nat} {r r' : Rollout τ}
    (h : rolloutLevel d p r = .done r') :
    PrioritySet.Silent r.batch.priorities r'.batch.priorities := by
  obtain ⟨made, hmade, h⟩ := Attempt.andThen_eq_done h
  obtain ⟨ps, hps, rfl⟩ := Attempt.map_eq_done hmade
  have hmade := PrioritySet.silent_getOrCreate hps
  simp only [Rollout.reconcileLevel] at h
  split at h
  · cases h
    exact hmade
  · simp only [Rollout.install, Draft.compose_eq] at h
    obtain ⟨b, hb, rfl⟩ := Attempt.map_eq_done h
    exact hmade.trans (Batch.silent_update hb)

theorem silent_rollout {d : Delivery} {levels : List Nat} {r r' : Rollout τ}
    (h : Attempt.each (rolloutLevel d) levels r = .done r') :
    PrioritySet.Silent r.batch.priorities r'.batch.priorities :=
  Attempt.each_keeps
    (P := fun s : Rollout τ => PrioritySet.Silent r.batch.priorities s.batch.priorities)
    (fun _ _ _ _ hs hp => hs.trans (silent_rolloutLevel hp)) (.refl _) h

end DynamicCluster

end Roster

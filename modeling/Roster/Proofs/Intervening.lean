import Roster.Cluster.Run
import Roster.Proofs.Delivering
import Roster.Proofs.Settling

/-!
# Roster.Proofs.Intervening

What a caller may do to a cluster past its discovery source: change hosts, make hosts of its own, and
install hosts at levels, one by one or as a batch. As long as there are the hosts that are installed,
a sound cluster stays sound.

* `Sound.of_keeps` — hosts change except for their descriptions, and the levels rest.
* `Sound.put`      — one level is installed; `sound_update`, `sound_batch` and `sound_updateLevel` are
  the ways to do so.
-/

namespace Roster

/-! ## Reconciling any hosts -/

namespace Reconcile

variable {rules : Rules} {all : AddressMap}

theorem keeps_matchHost (m : Matching) (id : HostId) :
    HostStore.Keeps m.store (matchHost rules all m id).store := by
  simp only [matchHost]
  split
  · exact HostStore.keeps_modify _ _ fun _ => Host.alike_setFlags _ _
  · rename_i e _
    have hclear : HostStore.Keeps m.store (m.store.modify e (·.clearFlag .pendingRemoval)) :=
      HostStore.keeps_modify _ _ fun _ => Host.alike_clearFlag _ _
    split
    · exact hclear.trans (HostStore.keeps_modify _ _ fun _ => Host.alike_setFlags _ _)
    · exact hclear.trans (HostStore.keeps_modify _ _ fun _ => Host.alike_adopt _ _)

theorem keeps_matchAll (store : HostStore) (delivered : List HostId) :
    HostStore.Keeps store (matchAll rules all store delivered).store := by
  have hfold : ∀ m : Matching,
      HostStore.Keeps m.store (delivered.foldl (matchHost rules all) m).store := by
    induction delivered with
    | nil => exact fun m => .refl m.store
    | cons id delivered ih => exact fun m => (keeps_matchHost m id).trans (ih _)
  exact hfold { store }

theorem keeps_reconcile (store : HostStore) (delivered current : List HostId)
    (texts : List String) :
    HostStore.Keeps store (reconcile rules store delivered current all texts).store := by
  rw [reconcile_eq]
  exact (keeps_matchAll store delivered).trans
    (HostStore.keeps_modifyAll _ _ fun _ => Host.alike_setFlag _ _)

end Reconcile

/-! ## Levels -/

namespace PrioritySet

variable {τ : Type} {ps : PrioritySet τ}

theorem rests_notifyMembers (ps : PrioritySet τ) (added removed : List HostId) :
    Rests ps (ps.notifyMembers added removed) :=
  (hears_notifyMembers added removed ps).rests

theorem rests_notifyLevel (hps : ps.Forwards) (p : Nat) (added removed : List HostId) :
    Rests ps (ps.notifyLevel p added removed) := by
  rcases Nat.lt_or_ge p ps.levels.length with hp | hp
  · obtain ⟨new, hnew, _⟩ := hears_notifyLevel p added removed hps hp
    exact hnew.rests
  · have hnone : ps.level? p = none := List.getElem?_eq_none hp
    simp only [notifyLevel, hnone]
    exact .refl ps

variable [Quantity τ]

theorem mem_hostsAt_install {u : Update} {q : Nat} {i : HostId} (hi : i ∈ (ps.install u).hostsAt q) :
    i ∈ u.partition.hosts ∨ i ∈ ps.hostsAt q := by
  obtain ⟨l, hl, hmem⟩ := exists_level_of_mem hi
  rw [level?_install] at hl
  obtain ⟨k, hk, rfl⟩ := Option.map_eq_some_iff.1 hl
  split at hmem
  · exact .inl hmem
  · exact .inr (by rw [hostsAt_of_level? hk]; exact hmem)

/-- An update that is not refused installs, and tells the observers of the members. -/
theorem update_eq_done {store : HostStore} {u : Update} {qs : PrioritySet τ}
    (h : ps.update store u = .done qs) :
    qs = (ps.put store u).notifyMembers u.added u.removed := by
  simp only [update, putChecked] at h
  split at h
  · cases h
  · cases h
    rfl

end PrioritySet

/-! ## Clusters -/

namespace Cluster

variable {τ : Type} {c d : Cluster τ}

theorem Sound.of_keeps (hc : c.Sound) (hhosts : HostStore.Keeps c.hosts d.hosts)
    (hlevels : PrioritySet.Rests c.priorities d.priorities) : d.Sound := by
  refine ⟨hlevels.regular hc.regular, ?_, ?_⟩
  · intro p i hi
    rw [hlevels.hostsAt] at hi
    exact Nat.lt_of_lt_of_le (hc.known p i hi) hhosts.size_le
  · intro b e he
    rw [hlevels.map] at he
    obtain ⟨hlt, htext⟩ := hc.mapped b e he
    exact ⟨Nat.lt_of_lt_of_le hlt hhosts.size_le, (hhosts.addressText hlt).trans htext⟩

theorem Sound.of_rests (hc : c.Sound) {ps : PrioritySet τ} (h : PrioritySet.Rests c.priorities ps) :
    ({ c with priorities := ps } : Cluster τ).Sound :=
  hc.of_keeps (.refl _) h

variable [Quantity τ] {u : Update} {ps : PrioritySet τ}

theorem Sound.put (hc : c.Sound) (hu : c.hosts.Knows u) :
    ({ c with priorities := c.priorities.put c.hosts u } : Cluster τ).Sound := by
  obtain ⟨new, hputs⟩ := PrioritySet.puts_put hc.regular c.hosts u
  refine ⟨hputs.regular, ?_, ?_⟩
  · intro p i hi
    have hi : i ∈ (c.priorities.put c.hosts u).hostsAt p := hi
    rw [hputs.hostsAt p] at hi
    split at hi
    · exact hu.installed i hi
    · exact hc.known p i hi
  · intro b e he
    have he : Assoc.find? b (c.priorities.put c.hosts u).addressMap = some e := he
    rw [hputs.map] at he
    rcases AddressIndex.find?_revised_eq_some he with he | ⟨hadded, hb⟩ | ⟨id, _, hsome, hb⟩
    · exact hc.mapped b e he
    · exact ⟨hu.added e hadded, hb⟩
    · obtain ⟨htwin, hk⟩ := PrioritySet.survivor?_eq_some hc.regular hsome
      refine ⟨?_, (PrioritySet.addressText_of_isTwin htwin).trans hb⟩
      rcases hk with hk | ⟨q, _, hk⟩
      · exact hu.installed e hk
      · exact hc.known q e hk

theorem sound_putChecked (hc : c.Sound) (hu : c.hosts.Knows u)
    (h : c.priorities.putChecked c.hosts u = .done ps) :
    ({ c with priorities := ps } : Cluster τ).Sound := by
  simp only [PrioritySet.putChecked] at h
  split at h
  · cases h
  · cases h
    exact hc.put hu

theorem sound_update (hc : c.Sound) (hu : c.hosts.Knows u)
    (h : c.priorities.update c.hosts u = .done ps) :
    ({ c with priorities := ps } : Cluster τ).Sound := by
  rw [PrioritySet.update_eq_done h]
  exact (hc.put hu).of_rests (PrioritySet.rests_notifyMembers _ u.added u.removed)

theorem sound_each {us : List Update} {b b' : Batch τ}
    (hb : ({ c with priorities := b.priorities } : Cluster τ).Sound)
    (hus : ∀ u ∈ us, c.hosts.Knows u)
    (h : Attempt.each (fun u (b : Batch τ) => b.update c.hosts u) us b = .done b') :
    ({ c with priorities := b'.priorities } : Cluster τ).Sound := by
  refine Attempt.each_keeps
    (P := fun b : Batch τ => ({ c with priorities := b.priorities } : Cluster τ).Sound) ?_ hb h
  intro u hu b₀ b₁ hb₀ hstep
  simp only [Batch.update] at hstep
  split at hstep
  · cases hstep
  · obtain ⟨qs, hput, rfl⟩ := Attempt.map_eq_done hstep
    exact sound_putChecked (c := { c with priorities := b₀.priorities }) hb₀ (hus u hu) hput

theorem sound_batch (hc : c.Sound) {us : List Update} (hus : ∀ u ∈ us, c.hosts.Knows u)
    (h : Batch.updateAll c.hosts us c.priorities = .done ps) :
    ({ c with priorities := ps } : Cluster τ).Sound := by
  obtain ⟨b, heach, rfl⟩ := Attempt.map_eq_done h
  have hb : ({ c with priorities := b.priorities } : Cluster τ).Sound := sound_each hc hus heach
  exact hb.of_rests (PrioritySet.rests_notifyMembers b.priorities b.netAdded b.netRemoved)

theorem sound_updateLevel (hc : c.Sound) (hu : c.hosts.Knows u)
    (h : c.priorities.updateLevel u = .done ps) :
    ({ c with priorities := ps } : Cluster τ).Sound := by
  have hinstall : ({ c with priorities := c.priorities.install u } : Cluster τ).Sound := by
    refine ⟨hc.regular.install u, ?_, hc.mapped⟩
    intro p i hi
    rcases PrioritySet.mem_hostsAt_install hi with hi | hi
    · exact hu.installed i hi
    · exact hc.known p i hi
  simp only [PrioritySet.updateLevel] at h
  split at h
  · cases h
  · cases h
    exact hinstall.of_rests
      (PrioritySet.rests_notifyLevel (hc.regular.install u).forwards u.priority u.added u.removed)

end Cluster

end Roster

import LineProof.Factory.Steps

/-!
# The registry and the slug index

The factory keeps its queues in a map from slugs, and beside it a list of the slugs. Two entrypoints append
to the list, one filters it, and the others write only the map. The two agree after every run
(`registry_agrees`): a slug is new to the list whenever it is new to the map, so the list never repeats one.
-/

namespace LineProof.Factory

open Soroban

/-- What the readers of the factory say about its registry is consistent. -/
structure RegistryAgrees (s : Store) : Prop where
  nodup : s.listQueues.Nodup
  listed_iff : ∀ slug, slug ∈ s.listQueues ↔ ∃ metadata, s.registry.lookup slug = some metadata
  slug_eq : ∀ slug metadata, s.registry.lookup slug = some metadata → metadata.slug = slug
  count : s.queueCount = s.registry.keys.card
  verify_iff : ∀ slug, s.verifyQueue slug = true ↔
    slug ∈ s.listQueues ∧ ∃ metadata, s.registry.lookup slug = some metadata ∧ metadata.active = true

/-- The list indexes the map, and there is nothing in the map of a factory without a configuration. -/
structure Indexed (s : Store) : Prop where
  nodup : s.listQueues.Nodup
  mem_iff : ∀ slug, slug ∈ s.listQueues ↔ ∃ metadata, s.registry.lookup slug = some metadata
  slug_eq : ∀ slug metadata, s.registry.lookup slug = some metadata → metadata.slug = slug
  bare : s.config = none → ∀ slug, s.registry.lookup slug = none

variable {host : Deployer} {factoryId : Address} {env : Env} {w w' : World} {e : Entrypoint} {o : Output}
  {events : List Event}

/-! ## Reading the map after a write -/

/-- A write changes one entry of the registry. -/
theorem setQueue_lookup (w : World) (slug : Symbol) (metadata : QueueMetadata) (slug' : Symbol) :
    (w.setQueue slug metadata).storage.registry.lookup slug' =
      if slug' = slug then some metadata else w.storage.registry.lookup slug' := by
  show (w.storage.registry.insert slug metadata).lookup slug' = _
  split
  · case _ heq => rw [heq, Finmap.lookup_insert]
  · case _ hne => exact Finmap.lookup_insert_of_ne _ hne

/-- A new queue is entered under its own slug. -/
theorem addQueue_lookup (w : World) (metadata : QueueMetadata) (slug : Symbol) :
    (w.addQueue metadata).storage.registry.lookup slug =
      if slug = metadata.slug then some metadata else w.storage.registry.lookup slug :=
  setQueue_lookup w metadata.slug metadata slug

/-- A destroyed queue is gone from the registry, and no other. -/
theorem removeQueue_lookup (w : World) (slug slug' : Symbol) :
    (w.removeQueue slug).storage.registry.lookup slug' =
      if slug' = slug then none else w.storage.registry.lookup slug' := by
  show (w.storage.registry.erase slug).lookup slug' = _
  split
  · case _ heq => rw [heq, Finmap.lookup_erase]
  · case _ hne => exact Finmap.lookup_erase_ne hne

/-! ## One call -/

namespace Indexed

/-- A new slug goes to the end of the list. -/
theorem addQueue (h : Indexed w.storage) {c : FactoryConfig} (config : w.storage.config = some c)
    {metadata : QueueMetadata} (absent : w.storage.registry.lookup metadata.slug = none) :
    Indexed (w.addQueue metadata).storage := by
  have hnew : metadata.slug ∉ w.storage.listQueues := by
    intro hmem
    obtain ⟨_, hstored⟩ := (h.mem_iff _).mp hmem
    rw [absent] at hstored
    contradiction
  have hlist : (w.addQueue metadata).storage.listQueues = w.storage.listQueues ++ [metadata.slug] := rfl
  constructor
  · rw [hlist, ← List.concat_eq_append]
    exact h.nodup.concat hnew
  · intro slug
    rw [hlist, addQueue_lookup, List.mem_append, List.mem_singleton, h.mem_iff]
    by_cases hslug : slug = metadata.slug
    · simp [hslug]
    · simp [hslug]
  · intro slug old
    rw [addQueue_lookup]
    split
    · case _ heq =>
      intro hold
      rw [← Option.some.inj hold, heq]
    · exact h.slug_eq slug old
  · intro hnone
    have hsome : (w.addQueue metadata).storage.config = some c := config
    rw [hsome] at hnone
    contradiction

/-- Another entry in the place of one leaves the list right. -/
theorem setQueue (h : Indexed w.storage) {c : FactoryConfig} (config : w.storage.config = some c)
    {slug : Symbol} {old new : QueueMetadata} (stored : w.storage.registry.lookup slug = some old)
    (same : new.slug = old.slug) : Indexed (w.setQueue slug new).storage := by
  constructor
  · exact h.nodup
  · intro slug'
    rw [setQueue_listQueues, setQueue_lookup, h.mem_iff]
    by_cases hslug : slug' = slug
    · subst hslug
      simp [stored]
    · simp [hslug]
  · intro slug' metadata
    rw [setQueue_lookup]
    split
    · case _ heq =>
      intro hmetadata
      rw [← Option.some.inj hmetadata, same, heq]
      exact h.slug_eq slug old stored
    · exact h.slug_eq slug' metadata
  · intro hnone
    have hsome : (w.setQueue slug new).storage.config = some c := config
    rw [hsome] at hnone
    contradiction

/-- A slug leaves the list with its entry. -/
theorem removeQueue (h : Indexed w.storage) (slug : Symbol) :
    Indexed (w.removeQueue slug).storage := by
  have hlist : (w.removeQueue slug).storage.listQueues =
      w.storage.listQueues.filter (· ≠ slug) := rfl
  constructor
  · rw [hlist]
    exact h.nodup.filter _
  · intro slug'
    rw [hlist, removeQueue_lookup, List.mem_filter, h.mem_iff]
    by_cases hslug : slug' = slug
    · simp [hslug]
    · simp [hslug]
  · intro slug' metadata
    rw [removeQueue_lookup]
    split
    · nofun
    · exact h.slug_eq slug' metadata
  · intro hnone slug'
    rw [removeQueue_lookup]
    split
    · rfl
    · exact h.bare hnone slug'

/-- Every call keeps the list right. -/
theorem effect (h : Indexed w.storage) (eff : Effect host env w e o w' events) :
    Indexed w'.storage := by
  cases eff with
  | read => exact h
  | init auth new =>
    have hbare := h.bare new
    constructor
    · exact List.nodup_nil
    · intro slug
      simp [World.setSlugs, World.setConfig, Store.listQueues, hbare slug]
    · exact h.slug_eq
    · exact fun _ => hbare
  | @deploy _ _ _ _ _ contractId _ _ config _ absent =>
    have hworld : Indexed (w.addContract contractId).storage := h
    exact hworld.addQueue config absent
  | register call absent => exact h.addQueue call.config absent
  | approve => exact ⟨h.nodup, h.mem_iff, h.slug_eq, h.bare⟩
  | deactivate call stored | reactivate call stored => exact h.setQueue call.config stored rfl
  | upgrade call _ stored => exact h.setQueue call.config stored rfl
  | destroy => exact h.removeQueue _
  | config => exact ⟨h.nodup, h.mem_iff, h.slug_eq, nofun⟩

/-- The readers agree on an indexed registry. -/
theorem agrees {s : Store} (h : Indexed s) : RegistryAgrees s := by
  refine ⟨h.nodup, h.mem_iff, h.slug_eq, ?_, ?_⟩
  · have hkeys : s.registry.keys = s.listQueues.toFinset := by
      ext slug
      rw [Finmap.mem_keys, Finmap.mem_iff, List.mem_toFinset, h.mem_iff]
    rw [hkeys, List.toFinset_card_of_nodup h.nodup, Store.queueCount]
  · intro slug
    rw [h.mem_iff, Store.verifyQueue]
    cases s.registry.lookup slug with
    | none => simp
    | some metadata => simp

end Indexed

/-- A committed step keeps the index in step with the registry. -/
theorem indexed_commit (c : (factory host factoryId).Commit) (h : Indexed c.pre.store.storage) :
    Indexed c.post.store.storage := by
  rcases effect_of_commit c with ⟨_, _, _, _, -, -, eff⟩ | ⟨-, hsame, -⟩
  · exact h.effect eff
  · rw [hsame]
    exact h

/-! ## Every run -/

/-- After every run the registry and the slug index agree. -/
theorem registry_agrees (host : Deployer) (factoryId : Address) (steps : List Step) :
    RegistryAgrees ((factory host factoryId).run fresh steps).store.storage := by
  refine Indexed.agrees (Transactional.run_invariant (I := fun l : Ledger World => Indexed l.store.storage)
    indexed_commit ?_ steps)
  exact ⟨List.nodup_nil, by simp [fresh, Store.listQueues], by simp [fresh], by simp [fresh]⟩

end LineProof.Factory

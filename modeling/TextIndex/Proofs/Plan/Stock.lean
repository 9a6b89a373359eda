import TextIndex.Proofs.Plan.Drain
import TextIndex.Proofs.Plan.Protection
import TextIndex.Proofs.Plan.Reach

/-!
# Runs over a stock

A manager may have built kinds in earlier runs and still have them. `Manager.Stocks` says what is relied
on: it builds a kind from requirements that are in stock, uses up nothing but an unprotected requirement,
and lets nothing appear but the kind and its byproducts.

When a run starts, whatever is in stock and would be touched is requested with the rest. Then the run
loses nothing: only kinds without a consumer are released, only kinds with a single one are unprotected,
and a requested kind has its client. So afterwards the stock is what it was, and what was requested
(`Passage.restocked`).

`Stocked` is the invariant. A kind that was built in this run is in stock as long as it is `Awaited`;
its degree says so too late, because a requirement that has been used up is released only afterwards.
-/

set_option autoImplicit false

namespace TextIndex

variable {K E S V : Type} [DecidableEq K]

/-- The stock after building `k`, compared with the one before. -/
structure Supplied (r : Registry K) (compressed : Bool) (k : K) (shared : K → Prop)
    (before after : K → Option V) : Prop where
  there : (after k).isSome
  kept : ∀ j, (before j).isSome → (j ∈ r.requirements k → shared j) → (after j).isSome
  /-- What is in stock is left as it is, unless it is to be compressed. -/
  same : compressed = false → ∀ j, (before j).isSome → (j ∈ r.requirements k → shared j) →
    after j = before j
  only : ∀ j, (after j).isSome → (before j).isSome ∨ j = k ∨ j ∈ r.byproducts k

/-- A manager with a stock. Every call keeps `I`, and where `I` holds nothing is refused that can be asked
for: to build a kind when the requirements are in stock, and to compress a kind that is in stock. -/
structure Manager.Stocks (m : Manager K E S) (r : Registry K) (compressed : Bool) (I : S → Prop)
    (stock : S → K → Option V) (shared : S → K → Prop) : Prop where
  records : m.Records shared
  keeps : ∀ call s, I s → I (m.after s call)
  ensure : ∀ k s, I s → ∃ t, m.ensure k s = .ok () t ∧ stock t = stock s
  protect : ∀ k s, stock (m.protect k s) = stock s
  unprotect : ∀ k s, stock (m.unprotect k s) = stock s
  discard : ∀ k intermediate s j,
    stock (m.discard k intermediate s) j = if j = k then none else stock s j
  construct : ∀ k s, I s → (∀ q ∈ r.requirements k, (stock s q).isSome) →
    ∃ t, m.construct k compressed s = .ok () t ∧
      Supplied r compressed k (shared s) (stock s) (stock t)
  compress : ∀ k s, I s → (stock s k).isSome →
    ∃ t, m.compress k s = .ok () t ∧ ∀ j, (stock t j).isSome = (stock s j).isSome

/-- The stock after a run that was asked for `requested`. -/
structure Restocked (requested : List K) (mode : Mode) (before after : K → Option V) : Prop where
  isSome_iff : ∀ k, (after k).isSome ↔ (before k).isSome ∨ k ∈ requested
  same : mode = .plain → ∀ k, (before k).isSome → after k = before k

omit [DecidableEq K] in
/-- What is in stock can be asked for and left out alike. -/
theorem Restocked.of_held {requested held : List K} {mode : Mode} {before after : K → Option V}
    (h : Restocked (requested ++ held) mode before after) (hheld : ∀ k ∈ held, (before k).isSome) :
    Restocked requested mode before after where
  isSome_iff k := by
    rw [h.isSome_iff, List.mem_append]
    refine ⟨?_, Or.imp_right Or.inl⟩
    rintro (hk | hk | hk)
    · exact Or.inl hk
    · exact Or.inr hk
    · exact Or.inl (hheld k hk)
  same := h.same

namespace Run

variable {r : Registry K} {mode : Mode} {m : Manager K E S} {I : S → Prop}
  {stock : S → K → Option V} {shared : S → K → Prop} {base : K → Option V} {first : K → Nat}
  {c c' : Stage K S}

/-! ## Kinds that are waited for -/

/-- The client asked for the kind, or something that is needed and not built yet requires it. -/
def Awaited (r : Run K) (k : K) : Prop :=
  k ∈ r.requestedKinds ∨ ∃ y, r.registry.Reachable r.requestedKinds.toList y ∧
    y ∉ r.constructedKinds ∧ k ∈ r.registry.requirements y

/-- A kind that is awaited has a consumer. -/
theorem Balance.awaited_pos {slack : K → Nat} (h : Balance slack c) {k : K}
    (hk : c.session.run.Awaited k) : 0 < c.session.run.degrees.degree k := by
  rcases hk with hk | ⟨y, hy, hnew, hky⟩
  · exact h.requested_pos hk
  · exact h.required_pos hy hnew hky

/-- Nobody waits for a kind whose last consumer is being taken away. -/
theorem Balance.not_awaited_of_last {slack : K → Nat} {s : Session K S} {tasks : List (Task K)} {k : K}
    (h : Balance slack ⟨s, .release k :: tasks⟩) (hdeg : s.run.degrees.degree k = 1) :
    ¬ s.run.Awaited k := by
  rintro (hk | ⟨y, hy, hnew, hky⟩)
  · exact h.not_requested_of_last hdeg hk
  · have hpos : 0 < s.run.consumers k := consumers_pos (h.reached y hy) hnew hky
    have hout := h.degree_eq k
    simp only [outstanding, List.count_cons_self, hdeg] at hout
    omega

/-- What is needed for a kind that is about to be built is waited for. -/
theorem Ready.awaited {s : Session K S} {k q : K} {top : Bool} (hready : s.run.Ready k top)
    (hq : q ∈ s.run.registry.requirements k) : s.run.Awaited q :=
  Or.inr ⟨k, hready.wanted.reachable, hready.unbuilt, hq⟩

/-- Building a kind makes nothing awaited that was not. -/
theorem Awaited.of_built {r : Run K} {j k : K} (h : (r.built k).Awaited j) : r.Awaited j := by
  rcases h with h | ⟨y, hy, hnew, hjy⟩
  · exact Or.inl h
  · exact Or.inr ⟨y, hy, fun hmem => hnew (KindSet.mem_insert.2 (Or.inl hmem)), hjy⟩

/-- What is awaited depends on the request, the registry and the built kinds only. -/
theorem Awaited.congr {r r' : Run K} {k : K} (h : r'.Awaited k)
    (hrequested : r'.requestedKinds = r.requestedKinds) (hregistry : r'.registry = r.registry)
    (hbuilt : r'.constructedKinds = r.constructedKinds) : r.Awaited k := by
  unfold Awaited at h ⊢
  rwa [hrequested, hregistry, hbuilt] at h

/-! ## The tasks -/

/-- Only touched kinds are looked at as byproducts, and only built ones are settled, in delayed
mode. -/
structure Due (c : Stage K S) : Prop where
  byproducts : ∀ k, .byproduct k ∈ c.tasks →
    c.session.run.registry.Touches c.session.run.requestedKinds.toList k
  settles : ∀ k, .settle k ∈ c.tasks →
    c.session.run.mode = .delayed ∧ k ∈ c.session.run.constructedKinds

/-- After a kind has been built its byproducts are looked at, and it is settled at most itself. -/
theorem due_tasksAfter {s : Session K S} {k : K} {top : Bool} {t : S} (hready : s.run.Ready k top) :
    Due ⟨⟨s.run.built k, t⟩, s.run.tasksAfter top k⟩ where
  byproducts x hx := by
    have hx' : x ∈ s.run.registry.byproducts k := by
      have hlast : .byproduct x ∉ s.run.lastTasks top k := by
        unfold lastTasks
        split <;> simp
      simpa [tasksAfter, hlast] using hx
    exact Or.inr ⟨k, hready.wanted.reachable, hx'⟩
  settles x hx := by
    have hx' : .settle x ∈ s.run.lastTasks top k := by simpa [tasksAfter] using hx
    unfold lastTasks at hx'
    split at hx'
    · next hdelayed =>
      obtain rfl : x = k := by simpa using hx'
      exact ⟨hdelayed.1, KindSet.mem_insert.2 (Or.inr rfl)⟩
    · exact absurd hx' List.not_mem_nil

/-- When a task is done the others are still due. -/
theorem Due.tail {s : Session K S} {task : Task K} {tasks : List (Task K)}
    (h : Due ⟨s, task :: tasks⟩) : Due (⟨s, tasks⟩ : Stage K S) where
  byproducts k hk := h.byproducts k (List.mem_cons_of_mem _ hk)
  settles k hk := h.settles k (List.mem_cons_of_mem _ hk)

/-- Only the request, the registry, the mode, what is built and the tasks matter. -/
theorem Due.frame (h : Due c) (hrequested : c'.session.run.requestedKinds = c.session.run.requestedKinds)
    (hregistry : c'.session.run.registry = c.session.run.registry)
    (hmode : c'.session.run.mode = c.session.run.mode)
    (hbuilt : c'.session.run.constructedKinds = c.session.run.constructedKinds)
    (htasks : c'.tasks = c.tasks) : Due c' := by
  constructor
  · rw [htasks, hrequested, hregistry]
    exact h.byproducts
  · rw [htasks, hmode, hbuilt]
    exact h.settles

/-- A step leaves only such tasks as are due. -/
theorem Due.step {slack : K → Nat} (h : Due c) (hbalance : Balance slack c) (hstep : Step m c c') :
    Due c' := by
  cases hstep with
  | consult hreg => exact h.frame rfl hreg rfl rfl rfl
  | construct hready _ => exact due_tasksAfter hready
  | @releaseShared s k n tasks hdeg _ =>
    constructor
    · intro x hx
      apply h.byproducts x
      apply List.mem_cons_of_mem
      exact (List.mem_append.1 hx).resolve_left (by split <;> simp)
    · intro x hx
      rcases List.mem_append.1 hx with hx | hx
      · split at hx
        · next hdelayed =>
          obtain rfl : x = k := by simpa using hx
          exact ⟨hdelayed, hbalance.release_built x (List.mem_cons_self ..)⟩
        · exact absurd hx List.not_mem_nil
      · exact h.settles x (List.mem_cons_of_mem _ hx)
  | _ => exact h.tail.frame rfl rfl rfl rfl rfl

/-! ## The stock -/

/-- The stock of a run that found `base` at its start. -/
structure Stocked (stock : S → K → Option V) (base : K → Option V) (c : Stage K S) : Prop where
  awaited : ∀ k ∈ c.session.run.constructedKinds, c.session.run.Awaited k →
    (stock c.session.manager k).isSome
  kept : ∀ k, (base k).isSome → (stock c.session.manager k).isSome
  same : c.session.run.mode = .plain → ∀ k, (base k).isSome → stock c.session.manager k = base k
  /-- Whatever else is in stock will be released unless it is requested. -/
  only : ∀ k, (stock c.session.manager k).isSome →
    (base k).isSome ∨ .byproduct k ∈ c.tasks ∨ 0 < c.session.run.degrees.degree k

/-- A step that leaves the stock as it is. -/
theorem Stocked.keep (h : Stocked stock base c)
    (hstock : stock c'.session.manager = stock c.session.manager)
    (hrequested : c'.session.run.requestedKinds = c.session.run.requestedKinds)
    (hregistry : c'.session.run.registry = c.session.run.registry)
    (hmode : c'.session.run.mode = c.session.run.mode)
    (hbuilt : c'.session.run.constructedKinds = c.session.run.constructedKinds)
    (hpending : ∀ k, (.byproduct k ∈ c.tasks ∨ 0 < c.session.run.degrees.degree k) →
      .byproduct k ∈ c'.tasks ∨ 0 < c'.session.run.degrees.degree k) : Stocked stock base c' where
  awaited k hk hawaited := by
    rw [hstock]
    rw [hbuilt] at hk
    exact h.awaited k hk (hawaited.congr hrequested hregistry hbuilt)
  kept := by
    rw [hstock]
    exact h.kept
  same := by
    rw [hstock, hmode]
    exact h.same
  only k hk := by
    rw [hstock] at hk
    exact (h.only k hk).imp_right (hpending k)

/-- A step that takes out a kind which was not in stock at first and which nobody waits for. -/
theorem Stocked.drop (h : Stocked stock base c) {k : K}
    (hstock : ∀ j, stock c'.session.manager j = if j = k then none else stock c.session.manager j)
    (hrequested : c'.session.run.requestedKinds = c.session.run.requestedKinds)
    (hregistry : c'.session.run.registry = c.session.run.registry)
    (hmode : c'.session.run.mode = c.session.run.mode)
    (hbuilt : c'.session.run.constructedKinds = c.session.run.constructedKinds)
    (hawaited : ¬ c.session.run.Awaited k) (hbase : ¬ (base k).isSome)
    (hpending : ∀ j, j ≠ k → (.byproduct j ∈ c.tasks ∨ 0 < c.session.run.degrees.degree j) →
      .byproduct j ∈ c'.tasks ∨ 0 < c'.session.run.degrees.degree j) : Stocked stock base c' := by
  have hother : ∀ j, j ≠ k → stock c'.session.manager j = stock c.session.manager j := by
    intro j hj
    rw [hstock, if_neg hj]
  have hbase' : ∀ j, (base j).isSome → j ≠ k := by
    rintro j hj rfl
    exact hbase hj
  constructor
  · intro j hj hwait
    have hwait' := hwait.congr hrequested hregistry hbuilt
    have hne : j ≠ k := by
      rintro rfl
      exact hawaited hwait'
    rw [hother j hne]
    rw [hbuilt] at hj
    exact h.awaited j hj hwait'
  · intro j hj
    rw [hother j (hbase' j hj)]
    exact h.kept j hj
  · intro hplain j hj
    rw [hother j (hbase' j hj)]
    exact h.same (hmode ▸ hplain) j hj
  · intro j hj
    by_cases hne : j = k
    · rw [hstock, if_pos hne] at hj
      cases hj
    · rw [hother j hne] at hj
      exact (h.only j hj).imp_right (hpending j hne)

/-- What holds while a run over a stock is evaluated. -/
structure Underway (r : Registry K) (mode : Mode) (I : S → Prop) (stock : S → K → Option V)
    (shared : S → K → Prop) (base : K → Option V) (first : K → Nat) (c : Stage K S) : Prop where
  registry_eq : c.session.run.registry = r
  mode_eq : c.session.run.mode = mode
  inner : I c.session.manager
  balance : Balance (fun _ => 0) c
  guarded : Guarded first c.session.run
  agrees : Agrees shared c.session
  sorted : c.session.run.Sorted
  due : Due c
  /-- What was in stock and is touched was requested. -/
  reuses : ∀ k, (base k).isSome → r.Touches c.session.run.requestedKinds.toList k →
    k ∈ c.session.run.requestedKinds
  stocked : Stocked stock base c

section Underway

variable (hm : m.Stocks r (decide (mode = .compressed)) I stock shared)

include hm

/-- The requirements of a kind that is about to be built are in stock, so it will be built. -/
theorem Underway.construct {s : Session K S} {k : K} {top : Bool}
    (h : Underway r mode I stock shared base first ⟨s, []⟩) (hready : s.run.Ready k top) :
    ∃ t, m.construct k (s.run.mode = .compressed) s.manager = .ok () t ∧
      Supplied r (decide (mode = .compressed)) k (shared s.manager) (stock s.manager) (stock t) := by
  have hreg : s.run.registry = r := h.registry_eq
  have hmode : s.run.mode = mode := h.mode_eq
  rw [hmode]
  apply hm.construct k s.manager h.inner
  intro q hq
  rw [← hreg] at hq
  exact h.stocked.awaited q (hready.requirements q hq) (hready.awaited hq)

omit hm in
/-- An unprotected requirement of a kind that is about to be built was not in stock at first, and after
that nobody waits for it. -/
theorem Underway.spare {s : Session K S} {k q : K} {top : Bool}
    (h : Underway r mode I stock shared base first ⟨s, []⟩) (hready : s.run.Ready k top)
    (hq : q ∈ r.requirements k) (hfree : ¬ shared s.manager q) :
    ¬ (base q).isSome ∧ ¬ (s.run.built k).Awaited q := by
  have hreg : s.run.registry = r := h.registry_eq
  have hq' : q ∈ s.run.registry.requirements k := by rwa [hreg]
  obtain ⟨hclient, hlast⟩ := h.guarded.last_consumer h.balance hready hq'
    (fun hmem => hfree ((h.agrees q).2 hmem))
  constructor
  · intro hbase
    apply hclient
    apply h.reuses q hbase
    have hreach := hready.wanted.reachable.needs hq'
    rw [hreg] at hreach
    exact Or.inl hreach
  · rintro (hk | ⟨y, hy, hnew, hqy⟩)
    · exact hclient hk
    · have hunbuilt : y ∉ s.run.constructedKinds := fun hmem =>
        hnew (KindSet.mem_insert.2 (Or.inl hmem))
      have heq : y = k := hlast y hy hqy hunbuilt
      exact hnew (KindSet.mem_insert.2 (Or.inr heq))

omit hm in
/-- Building a kind keeps the stock. -/
theorem Underway.stocked_construct {s : Session K S} {k : K} {top : Bool} {t : S}
    (h : Underway r mode I stock shared base first ⟨s, []⟩) (hready : s.run.Ready k top)
    (hsupplied : Supplied r (decide (mode = .compressed)) k (shared s.manager) (stock s.manager)
      (stock t)) :
    Stocked stock base ⟨⟨s.run.built k, t⟩, s.run.tasksAfter top k⟩ := by
  have hold := h.stocked
  have hmode : s.run.mode = mode := h.mode_eq
  -- what was there at first has its client besides, so it is protected
  have hbase : ∀ j, (base j).isSome → j ∈ r.requirements k → shared s.manager j := by
    intro j hj hjk
    by_contra hfree
    exact (h.spare hready hjk hfree).1 hj
  constructor
  · intro j hj hwait
    rcases KindSet.mem_insert.1 hj with hj | rfl
    · apply hsupplied.kept j (hold.awaited j hj hwait.of_built)
      intro hjk
      by_contra hfree
      exact (h.spare hready hjk hfree).2 hwait
    · exact hsupplied.there
  · exact fun j hj => hsupplied.kept j (hold.kept j hj) (hbase j hj)
  · intro hplain j hj
    have hplain : mode = .plain := hmode.symm.trans hplain
    rw [← hold.same (hmode.trans hplain) j hj]
    exact hsupplied.same (by simp [hplain]) j (hold.kept j hj) (hbase j hj)
  · intro j hj
    rcases hsupplied.only j hj with hj | rfl | hj
    · rcases hold.only j hj with hj | hj | hj
      · exact Or.inl hj
      · exact absurd hj List.not_mem_nil
      · exact Or.inr (Or.inr hj)
    · exact Or.inr (Or.inr (h.balance.wanted_pos hready.wanted))
    · rw [← h.registry_eq] at hj
      exact Or.inr (Or.inl (List.mem_append_left _ (List.mem_map_of_mem hj)))

/-- A step keeps in stock what is awaited and what was there at the start. -/
theorem Underway.stocked_step (h : Underway r mode I stock shared base first c) (hstep : Step m c c') :
    Stocked stock base c' := by
  have hold := h.stocked
  cases hstep with
  | consult hreg => exact hold.keep rfl rfl hreg rfl rfl fun _ hx => hx
  | @construct s k top t hready hok =>
    obtain ⟨t', ht', hsupplied⟩ := h.construct hm hready
    cases ht'.symm.trans hok
    exact h.stocked_construct hready hsupplied
  | @keepByproduct s k tasks hdeg =>
    refine hold.keep rfl rfl rfl rfl rfl ?_
    rintro x (hx | hx)
    · rcases List.mem_cons.1 hx with heq | hx
      · injection heq with heq
        rw [heq]
        exact Or.inr (Nat.pos_of_ne_zero hdeg)
      · exact Or.inl hx
    · exact Or.inr hx
  | @dropByproduct s k tasks hdeg =>
    have hzero : ¬ 0 < s.run.degrees.degree k := by omega
    refine hold.drop (hm.discard k true _) rfl rfl rfl rfl ?_ ?_ ?_
    · exact fun hwait => hzero (h.balance.awaited_pos hwait)
    · intro hbase
      apply hzero
      apply h.balance.requested_pos
      have htouched := h.due.byproducts k (List.mem_cons_self ..)
      rw [h.registry_eq] at htouched
      exact h.reuses k hbase htouched
    · rintro j hj (hx | hx)
      · exact Or.inl (mem_of_byproduct_mem_cons (by simpa using Ne.symm hj) hx)
      · exact Or.inr hx
  | @releaseLast s k tasks hdeg =>
    refine hold.drop (hm.discard k _ _) rfl rfl rfl rfl ?_ ?_ ?_
    · exact h.balance.not_awaited_of_last hdeg
    · intro hbase
      apply h.balance.not_requested_of_last hdeg
      apply h.reuses k hbase
      have hreach := h.sorted.reachable k (h.balance.release_built k (List.mem_cons_self ..))
      rw [h.registry_eq] at hreach
      exact Or.inl hreach
    · rintro j hj (hx | hx)
      · exact Or.inl (mem_of_byproduct_mem_cons (by simp) hx)
      · right
        show 0 < (s.run.withDegree k 0).degrees.degree j
        rwa [degree_withDegree, if_neg hj]
  | @releaseToLast s k tasks hdeg hk =>
    refine hold.keep (hm.unprotect k _) rfl rfl rfl rfl ?_
    rintro x (hx | hx)
    · exact Or.inl (mem_of_byproduct_mem_cons (by simp) hx)
    · exact Or.inr (degree_withDegree_pos Nat.one_pos hx)
  | @releaseShared s k n tasks hdeg hk =>
    refine hold.keep rfl rfl rfl rfl rfl ?_
    rintro x (hx | hx)
    · exact Or.inl (List.mem_append_right _ (mem_of_byproduct_mem_cons (by simp) hx))
    · exact Or.inr (degree_withDegree_pos (Nat.succ_pos n) hx)
  | settleSkip _ =>
    refine hold.keep rfl rfl rfl rfl rfl ?_
    exact fun x hx => hx.imp_left fun hx => mem_of_byproduct_mem_cons (by simp) hx
  | @settleDone s k t tasks halone hok =>
    obtain ⟨hdelayed, hbuilt⟩ := h.due.settles k (List.mem_cons_self ..)
    have hdelayed : s.run.mode = .delayed := hdelayed
    obtain ⟨t', ht', hsame⟩ :=
      hm.compress k s.manager h.inner (hold.awaited k hbuilt (Or.inl halone.1))
    cases ht'.symm.trans hok
    constructor
    · intro j hj hwait
      rw [hsame j]
      exact hold.awaited j hj hwait
    · intro j hj
      rw [hsame j]
      exact hold.kept j hj
    · intro hplain
      cases hplain.symm.trans hdelayed
    · intro j hj
      rw [hsame j] at hj
      exact (hold.only j hj).imp_right fun hx =>
        hx.imp_left fun hx => mem_of_byproduct_mem_cons (by simp) hx

/-- A step keeps a run underway. -/
theorem Underway.step (h : Underway r mode I stock shared base first c) (hstep : Step m c c') :
    Underway r mode I stock shared base first c' := by
  have hone : Steps m c c' := .single hstep
  exact {
    registry_eq := hone.registry_eq.trans h.registry_eq
    mode_eq := hone.mode_eq.trans h.mode_eq
    inner := Steps.keeps hm.keeps hone h.inner
    balance := h.balance.step hstep
    guarded := h.guarded.step h.balance hstep
    agrees := h.agrees.step hm.records h.guarded h.balance hstep
    sorted := h.sorted.steps hone
    due := h.due.step h.balance hstep
    reuses := by
      rw [hone.requestedKinds_eq]
      exact h.reuses
    stocked := h.stocked_step hm hstep }

/-- Steps keep a run underway. -/
theorem Underway.steps (h : Underway r mode I stock shared base first c) (hsteps : Steps m c c') :
    Underway r mode I stock shared base first c' := by
  induction hsteps with
  | refl => exact h
  | tail _ hstep ih => exact ih.step hm hstep

/-- Nothing is refused on the way. -/
theorem Underway.not_stop (h : Underway r mode I stock shared base first c) {e : ScheduleError K E}
    {t : Session K S} : ¬ Stop m c e t := by
  intro hstop
  cases hstop with
  | construct hready herror =>
    obtain ⟨t', ht', -⟩ := h.construct hm hready
    cases ht'.symm.trans herror
  | @settle s k e t tasks halone herror =>
    have hbuilt := (h.due.settles k (List.mem_cons_self ..)).2
    obtain ⟨t', ht', -⟩ :=
      hm.compress k s.manager h.inner (h.stocked.awaited k hbuilt (Or.inl halone.1))
    cases ht'.symm.trans herror
  | release hdeg => exact absurd hdeg (Nat.ne_of_gt h.balance.release_pos)

end Underway

/-! ## The whole run -/

/-- A manager with a stock can be asked to make any kind ready, and its stock stays the same. -/
theorem prepares_of_stocks {compressed : Bool} (hm : m.Stocks r compressed I stock shared)
    (base : K → Option V) : m.Prepares fun s => I s ∧ stock s = base where
  ensure k s h := by
    obtain ⟨t, ht, hstock⟩ := hm.ensure k s h.1
    have hI := hm.keeps (.ensure k) s h.1
    rw [show m.after s (.ensure k) = t from Manager.reached_of_ok ht] at hI
    exact ⟨t, ht, hI, hstock.trans h.2⟩
  protect k s h := ⟨hm.keeps (.protect k) s h.1, (hm.protect k s).trans h.2⟩

/-- A run whose kinds have been counted and nothing built. -/
structure Begun (r : Registry K) (requested : List K) (mode : Mode) (run : Run K) : Prop where
  registry_eq : run.registry = r
  mode_eq : run.mode = mode
  mem_requested : ∀ k, k ∈ run.requestedKinds ↔ k ∈ requested
  live_eq : run.live = .zero
  schedule_eq : run.schedule = .empty
  protected_iff : ∀ k, k ∈ run.protectedKinds ↔ 2 ≤ run.degrees.degree k

/-- A request builds nothing, so after it the run has only begun. -/
theorem RequestSteps.begun {requested : List K} {run : Run K}
    (hstart : Run.start r requested mode = .ok run) {s : S} {t : Session K S}
    (hsteps : RequestSteps m ⟨run, s⟩ t) : Begun r requested mode t.run := by
  have hmem : ∀ k, k ∈ run.requestedKinds ↔ k ∈ requested := mem_requestedKinds_start hstart
  have hrun := hsteps.run_eq
  obtain ⟨-, rfl⟩ := start_ok hstart
  refine ⟨hsteps.registry_eq, ?_, ?_, ?_, ?_, ?_⟩
  · rw [hrun]
  · rw [hrun]
    exact hmem
  · rw [hrun]
  · rw [hrun]
  · apply hsteps.protected_iff
    intro k
    simp

/-- A run that is done as a whole goes from the request to the evaluation. -/
theorem ends_constructAll {registry : Registry K} {requested : List K} {run : Run K}
    (hstart : Run.start registry requested mode = .ok run) {s : S} {Q : Schedule K → S → Prop}
    {F : ScheduleError K E → S → Prop} :
    Ends (constructAll registry m requested mode) s Q F ↔
      Ends (request m) ⟨run, s⟩
        (fun _ t => Ends (evaluate m) t (fun schedule u => Q schedule u.manager) fun e u => F e u.manager)
        fun e t => F e t.manager := by
  rw [← ends_bind]
  unfold Ends constructAll
  simp only [hstart]
  cases (do request m; evaluate m : SessionM K E S (Schedule K)) ⟨run, s⟩ <;> exact Iff.rfl

/-- What has been requested over a stock is ready to be evaluated. -/
theorem request_underway (hm : m.Stocks r (decide (mode = .compressed)) I stock shared)
    {requested : List K} {run : Run K} (hstart : Run.start r requested mode = .ok run) {s : S}
    (hs : I s) (hfree : ∀ k, ¬ shared s k)
    (hreuses : ∀ k, (stock s k).isSome → r.Touches requested k → k ∈ requested) :
    ∃ t, request m ⟨run, s⟩ = .ok () t ∧ t.run.phase = .requested ∧
      (∀ k, k ∈ t.run.requestedKinds ↔ k ∈ requested) ∧
      (∀ k, t.run.degrees.Contains k ↔ r.Reachable requested k) ∧
      Underway r mode I stock shared (stock s) t.run.degrees.degree ⟨t, []⟩ := by
  have hprepares := prepares_of_stocks hm (stock s)
  obtain ⟨u, hrequest, hsteps, hcounted, hcontains⟩ := request_granted hstart hprepares ⟨hs, rfl⟩
  obtain ⟨hI, hstock⟩ := RequestSteps.keeps_prepared hprepares ⟨hs, rfl⟩ hsteps
  have hbegun := hsteps.begun hstart
  have hempty : u.run.constructedKinds = .empty := hcounted.unbuilt
  have hnone : ∀ {P : K → Prop}, ∀ k ∈ u.run.constructedKinds, P k := by
    intro P k hk
    rw [hempty] at hk
    exact absurd hk (KindSet.not_mem_empty k)
  have hagrees : Agrees shared u := by
    apply Agrees.requestSteps hm.records _ hsteps
    intro k
    have hfresh : run.protectedKinds = .empty := by
      obtain ⟨-, rfl⟩ := start_ok hstart
      rfl
    rw [hfresh]
    exact ⟨fun hk => absurd hk (hfree k), fun hk => absurd hk (KindSet.not_mem_empty k)⟩
  have hbalance : Balance (fun _ => 0) ⟨u, []⟩ :=
    Counted.balance (by simpa using hcounted) hbegun.live_eq
  refine ⟨_, hrequest, rfl, hbegun.mem_requested, hcontains, {
    registry_eq := hbegun.registry_eq
    mode_eq := hbegun.mode_eq
    inner := hI
    balance := hbalance.frame rfl rfl rfl rfl rfl fun _ => rfl
    guarded := ⟨fun k => ?_, fun k => Nat.le_refl _⟩
    agrees := hagrees
    sorted := ⟨?_, hnone, ?_⟩
    due := ⟨fun _ hk => absurd hk List.not_mem_nil, fun _ hk => absurd hk List.not_mem_nil⟩
    reuses := fun k hk htouched => ?_
    stocked := ⟨hnone, fun k hk => ?_, fun _ k _ => ?_, fun k hk => Or.inl ?_⟩ }⟩
  · show k ∈ u.run.protectedKinds ↔ _
    rw [hbegun.protected_iff]
    exact ⟨Or.inl, fun h => h.elim id And.right⟩
  · show u.run.schedule.constructed = u.run.constructedKinds.toList
    rw [hempty, hbegun.schedule_eq]
    rfl
  · intro before k after heq
    have heq : u.run.constructedKinds.toList = before ++ k :: after := heq
    rw [hempty] at heq
    simp at heq
  · apply (hbegun.mem_requested k).2
    exact hreuses k hk (htouched.congr hbegun.mem_requested)
  · show (stock u.manager k).isSome
    rw [hstock]
    exact hk
  · show stock u.manager k = stock s k
    rw [hstock]
  · have hk : (stock u.manager k).isSome := hk
    rwa [hstock] at hk

/-- A run over the stock of `s`: the session `t` in which the kinds have been counted, and the session `u`
in which all that was requested has been built. -/
structure Passage (m : Manager K E S) (r : Registry K) (mode : Mode) (I : S → Prop)
    (stock : S → K → Option V) (shared : S → K → Prop) (requested : List K) (run : Run K) (s : S)
    (t u : Session K S) : Prop where
  start_eq : Run.start r requested mode = .ok run
  request_eq : request m ⟨run, s⟩ = .ok () t
  underway : Underway r mode I stock shared (stock s) t.run.degrees.degree ⟨t, []⟩
  steps : Steps m ⟨t, []⟩ ⟨u, []⟩
  mem_requested : ∀ k, k ∈ u.run.requestedKinds ↔ k ∈ requested
  built : ∀ k ∈ u.run.requestedKinds, k ∈ u.run.constructedKinds
  /-- The only consumer that is left is the client. -/
  degree_eq : ∀ k, u.run.degrees.degree k = if k ∈ u.run.requestedKinds then 1 else 0

/-- A run over a stock succeeds, and goes from the request to the end of the evaluation. -/
theorem run_passes (hm : m.Stocks r (decide (mode = .compressed)) I stock shared)
    {requested : List K} {run : Run K} (hstart : Run.start r requested mode = .ok run) {s : S}
    (hs : I s) (hfree : ∀ k, ¬ shared s k)
    (hreuses : ∀ k, (stock s k).isSome → r.Touches requested k → k ∈ requested) :
    Ends (constructAll r m requested mode) s
      (fun _ v => ∃ t u, Passage m r mode I stock shared requested run s t u ∧ v = u.manager)
      fun _ _ => False := by
  obtain ⟨L⟩ := Registry.nonempty_layers_of_request (start_ok hstart).1
  obtain ⟨t, hrequest, hphase, hmem, hcontains, hbegin⟩ := request_underway hm hstart hs hfree hreuses
  rw [ends_constructAll hstart]
  apply ends_of_ok hrequest
  apply (evaluate_follows L m hphase hbegin.registry_eq).mono
  · rintro schedule v ⟨u, hsteps, hall, -, rfl⟩
    have hend := hbegin.steps hm hsteps
    have hrequested : u.run.requestedKinds = t.run.requestedKinds := hsteps.requestedKinds_eq
    have hkeys : u.run.degrees.keys = t.run.degrees.keys := hsteps.keys_eq
    have hreg : u.run.registry = r := hend.registry_eq
    have hbuilt : ∀ k ∈ u.run.requestedKinds, k ∈ u.run.constructedKinds := by rwa [hrequested]
    have hmem' : ∀ k, k ∈ u.run.requestedKinds ↔ k ∈ requested := by rwa [hrequested]
    -- all that is counted has been built, so the only consumer to come is the client
    have hdegree := hend.balance.degree_of_built (t := u) fun y hy => by
      rw [hend.sorted.mem_iff hbuilt, hreg, Registry.reachable_congr hmem', ← hcontains]
      show y ∈ t.run.degrees.keys
      rw [← hkeys]
      exact hy
    exact ⟨t, u, ⟨hstart, hrequest, hbegin, hsteps, hmem', hbuilt, hdegree⟩, rfl⟩
  · rintro e v ⟨c, hsteps, hstop⟩
    exact (hbegin.steps hm hsteps).not_stop hm hstop

/-- In the end only what was in stock and what was requested is in stock. -/
theorem Passage.isSome_or_requested (hm : m.Stocks r (decide (mode = .compressed)) I stock shared)
    {requested : List K} {run : Run K} {s : S} {t u : Session K S}
    (h : Passage m r mode I stock shared requested run s t u) {k : K}
    (hk : (stock u.manager k).isSome) : (stock s k).isSome ∨ k ∈ u.run.requestedKinds := by
  rcases (h.underway.steps hm h.steps).stocked.only k hk with hk | hk | hk
  · exact Or.inl hk
  · exact absurd hk List.not_mem_nil
  · right
    have hk : 0 < u.run.degrees.degree k := hk
    rw [h.degree_eq] at hk
    by_contra hno
    rw [if_neg hno] at hk
    exact absurd hk (Nat.lt_irrefl 0)

/-- Afterwards everything is in stock that was there before, and what was requested; and nothing else
is. -/
theorem Passage.restocked (hm : m.Stocks r (decide (mode = .compressed)) I stock shared)
    {requested : List K} {run : Run K} {s : S} {t u : Session K S}
    (h : Passage m r mode I stock shared requested run s t u) :
    I u.manager ∧ Restocked requested mode (stock s) (stock u.manager) := by
  have hend := h.underway.steps hm h.steps
  refine ⟨hend.inner, fun k => ⟨fun hk => ?_, ?_⟩, hend.stocked.same ∘ hend.mode_eq.trans⟩
  · exact (h.isSome_or_requested hm hk).imp_right (h.mem_requested k).1
  · rintro (hk | hk)
    · exact hend.stocked.kept k hk
    · have hk := (h.mem_requested k).2 hk
      exact hend.stocked.awaited k (h.built k hk) (Or.inl hk)

/-! ## A run that cannot begin -/

section Refused

variable {F : K → E → S → Prop} (hleaf : ∀ k s, I s → r.requirements k = [] →
  Ends (m.construct k (mode = .compressed)) s (fun _ _ => False) fun e t => F k e t)

include hleaf

/-- A kind that may be built first requires nothing, so it is refused. -/
theorem Ready.refused {s : Session K S} (hregistry : s.run.registry = r) (hmode : s.run.mode = mode)
    (hI : I s.manager) (hnone : s.run.constructedKinds = .empty) {k : K} {top : Bool}
    (hready : s.run.Ready k top) : r.requirements k = [] ∧
      Ends (m.construct k (s.run.mode = .compressed)) s.manager (fun _ _ => False)
        fun e t => F k e t := by
  have hnil : r.requirements k = [] := by
    apply List.eq_nil_iff_forall_not_mem.2
    intro q hq
    rw [← hregistry] at hq
    have hbuilt := hready.requirements q hq
    rw [hnone] at hbuilt
    exact KindSet.not_mem_empty q hbuilt
  rw [hmode]
  exact ⟨hnil, hleaf k _ hI hnil⟩

/-- While the first kind is refused nothing happens. -/
theorem Steps.idle {c c' : Stage K S} (hsteps : Steps m c c') (hregistry : c.session.run.registry = r)
    (hmode : c.session.run.mode = mode) (hI : I c.session.manager) (htasks : c.tasks = [])
    (hnone : c.session.run.constructedKinds = .empty) :
    I c'.session.manager ∧ c'.tasks = [] ∧ c'.session.run.constructedKinds = .empty := by
  induction hsteps with
  | refl => exact ⟨hI, htasks, hnone⟩
  | @tail d d' hsteps hstep ih =>
    obtain ⟨hI', htasks', hnone'⟩ := ih
    cases hstep with
    | consult _ => exact ⟨hI', rfl, hnone'⟩
    | construct hready hok =>
      have hend := (hready.refused hleaf ((Steps.registry_eq hsteps).trans hregistry)
        ((Steps.mode_eq hsteps).trans hmode) hI' hnone').2
      exact (hend.of_ok hok).elim
    | _ => cases htasks'

/-- Where a manager refuses to build whatever requires nothing, a run for anything at all stops at the
first kind. -/
theorem run_refused {requested : List K} {run : Run K} (hstart : Run.start r requested mode = .ok run)
    (hm : m.Prepares I) {s : S} (hs : I s) :
    Ends (constructAll r m requested mode) s (fun _ t => requested = [] ∧ I t) fun e t =>
      requested ≠ [] ∧ ∃ k cause, e = .manager k cause ∧ r.requirements k = [] ∧ F k cause t := by
  obtain ⟨L⟩ := Registry.nonempty_layers_of_request (start_ok hstart).1
  obtain ⟨u, hrequest, hrequests, hcounted, -⟩ := request_granted hstart hm hs
  have hI : I u.manager := RequestSteps.keeps_prepared hm hs hrequests
  have hbegun := hrequests.begun hstart
  rw [ends_constructAll hstart]
  apply ends_of_ok hrequest
  have hidle : ∀ {c}, Steps m ⟨{ u with run := { u.run with phase := .requested } }, []⟩ c →
      I c.session.manager ∧ c.tasks = [] ∧ c.session.run.constructedKinds = .empty := fun hsteps =>
    hsteps.idle hleaf hbegun.registry_eq hbegun.mode_eq hI rfl hcounted.unbuilt
  apply (evaluate_follows L m (s := { u with run := { u.run with phase := .requested } }) rfl
    hbegun.registry_eq).mono
  · rintro schedule v ⟨w, hsteps, hall, -, rfl⟩
    obtain ⟨hI', -, hnone⟩ := hidle hsteps
    refine ⟨List.eq_nil_iff_forall_not_mem.2 fun k hk => ?_, hI'⟩
    have hbuilt := hall k ((hbegun.mem_requested k).2 hk)
    have hnone : w.run.constructedKinds = .empty := hnone
    rw [hnone] at hbuilt
    exact KindSet.not_mem_empty k hbuilt
  · rintro e v ⟨c, hsteps, hstop⟩
    obtain ⟨hI', htasks, hnone⟩ := hidle hsteps
    cases hstop with
    | @construct s k top e t hready herror =>
      obtain ⟨hnil, hend⟩ := hready.refused hleaf (hsteps.registry_eq.trans hbegun.registry_eq)
        (hsteps.mode_eq.trans hbegun.mode_eq) hI' hnone
      -- what is about to be built was asked for, or leads back to something that was
      obtain ⟨j, hj, -⟩ := hready.wanted.reachable
      have hj : j ∈ u.run.requestedKinds := by
        rw [← show s.run.requestedKinds = u.run.requestedKinds from hsteps.requestedKinds_eq]
        exact hj
      exact ⟨List.ne_nil_of_mem ((hbegun.mem_requested j).1 hj), _, _, rfl, hnil,
        hend.of_error herror⟩
    | settle => cases htasks
    | release => cases htasks

end Refused

end Run

end TextIndex

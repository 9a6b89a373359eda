import TextIndex.Proofs.Plan.Promise
import TextIndex.Proofs.Plan.Stock

/-!
# What a run over a stock leaves behind

Besides what is in stock (`Passage.restocked`), three things about a manager can be told from the request
when a run over its stock has ended.

* The run builds with the flag of its mode, and compresses in delayed mode only. What these calls keep is
  the same afterwards (`Passage.keeps`).
* A kind is made ready exactly if the requested ones lead to it (`Passage.registered_iff`). The counts
  show it: a kind is made ready right before it is counted, and the evaluation makes none ready.
* In a mode that compresses, nothing is left loose, that is, in stock and not at its least size
  (`Passage.not_loose`). In compressed mode nothing loose ever comes into stock. In delayed mode it does, but
  whatever stays was requested, so that its settling falls due. It is not loose again after that:
  a kind that has been settled is waited for by its client, hence in stock, and what is in stock is not
  built anew. This is what `Tight` says.
-/

set_option autoImplicit false

namespace TextIndex

variable {K E S V : Type}

/-- The calls that a run in the given mode makes. -/
def Event.InMode (mode : Mode) : Event K → Prop
  | .construct _ compressed => compressed = decide (mode = .compressed)
  | .compress _ => mode = .delayed
  | .ensure _ | .discard _ _ | .protect _ | .unprotect _ => True

/-- A manager that remembers which kinds it was asked to make ready. -/
structure Manager.Registers (m : Manager K E S) (registered : S → K → Prop) : Prop where
  ensure : ∀ k s j, registered (m.after s (.ensure k)) j ↔ registered s j ∨ j = k
  other : ∀ call s j, call.action ≠ .ensure → (registered (m.after s call) j ↔ registered s j)

/-- A manager of which something in stock may be loose. Only what is new in stock is loose anew, and
nothing is when it is built at its least size. -/
structure Manager.Tightens (m : Manager K E S) (compressed : Bool) (I : S → Prop)
    (stock : S → K → Option V) (loose : S → K → Prop) : Prop where
  there : ∀ s k, loose s k → (stock s k).isSome
  construct : ∀ k s t j, I s → m.construct k compressed s = .ok () t → loose t j →
    loose s j ∨ (compressed = false ∧ stock s j = none)
  compress : ∀ k s t, I s → m.compress k s = .ok () t → ¬ loose t k
  other : ∀ call s j, I s → call.action ≠ .construct → loose (m.after s call) j → loose s j

namespace Run

variable [DecidableEq K] {r : Registry K} {mode : Mode} {m : Manager K E S} {I : S → Prop}
  {stock : S → K → Option V} {shared : S → K → Prop} {base : K → Option V} {first : K → Nat}
  {requested : List K} {run : Run K} {c c' : Stage K S} {s : S} {t u : Session K S}

/-! ## What all calls of a mode keep -/

/-- A request keeps what is kept by making kinds ready and by protecting them. -/
theorem Passage.keeps_request {P : S → Prop}
    (h : Passage m r mode I stock shared requested run s t u)
    (hP : ∀ call s, call.action = .ensure ∨ call.action = .protect → P s → P (m.after s call))
    (hs : P s) : P t.manager := by
  obtain ⟨v, hsteps, -, -, rfl⟩ := request_ok h.start_eq h.request_eq
  exact hsteps.keeps_of_calls hP hs

section Keeps

variable (hm : m.Stocks r (decide (mode = .compressed)) I stock shared) {P : S → Prop}

include hm

/-- What is kept by the calls of a mode that leave in stock what was there at first, the evaluation keeps,
because it makes no others. -/
theorem Underway.keeps_inMode
    (hP : ∀ call s, call.InMode mode → I s → (∀ k, (base k).isSome → (stock s k).isSome) →
      (∀ k, (base k).isSome → (stock (m.after s call) k).isSome) → P s → P (m.after s call))
    (h : Underway r mode I stock shared base first c) (hsteps : Steps m c c')
    (hc : P c.session.manager) : P c'.session.manager := by
  induction hsteps with
  | refl => exact hc
  | @tail d d' hsteps hstep ih =>
    have hd := h.steps hm hsteps
    have hd' := h.steps hm (hsteps.tail hstep)
    rcases hstep.call with heq | ⟨call, hcalls, heq⟩
    · rwa [heq]
    · have hkept := hd'.stocked.kept
      rw [heq] at hkept ⊢
      refine hP call _ ?_ hd.inner hd.stocked.kept hkept ih
      cases call with
      | construct k compressed =>
        have hflag := hcalls.2.2
        rwa [hd.mode_eq] at hflag
      | compress k =>
        -- only a kind that is to be settled is compressed, and kinds are settled in delayed mode
        obtain ⟨tasks, htasks, -⟩ := hcalls
        have hsettle : .settle k ∈ d.tasks := htasks ▸ List.mem_cons_self ..
        exact hd.mode_eq.symm.trans (hd.due.settles k hsettle).1
      | _ => exact trivial

/-- What is kept by the calls of a mode that leave in stock what was there at first, a run keeps. -/
theorem Passage.keeps_over_stock (hI : I s)
    (hP : ∀ call v, call.InMode mode → I v → (∀ k, (stock s k).isSome → (stock v k).isSome) →
      (∀ k, (stock s k).isSome → (stock (m.after v call) k).isSome) → P v → P (m.after v call))
    (h : Passage m r mode I stock shared requested run s t u) (hs : P s) : P u.manager := by
  refine h.underway.keeps_inMode hm hP h.steps
    (h.keeps_request (P := fun v => (I v ∧ stock v = stock s) ∧ P v) ?_ ⟨⟨hI, rfl⟩, hs⟩).2
  rintro call v haction ⟨⟨hv, hstock⟩, hPv⟩
  have hsame : stock (m.after v call) = stock s := by
    cases call with
    | ensure k =>
      obtain ⟨t, ht, hkept⟩ := hm.ensure k v hv
      rw [show m.after v (.ensure k) = t from Manager.reached_of_ok ht, hkept, hstock]
    | protect k => exact (hm.protect k v).trans hstock
    | _ => simp [Event.action] at haction
  refine ⟨⟨hm.keeps call v hv, hsame⟩, hP call v ?_ hv ?_ ?_ hPv⟩
  · cases call <;> simp [Event.action, Event.InMode] at haction ⊢
  · rw [hstock]
    exact fun _ hk => hk
  · rw [hsame]
    exact fun _ hk => hk

end Keeps

/-- A run keeps what all calls of its mode keep. -/
theorem Passage.keeps {P : S → Prop} (hP : ∀ call s, call.InMode mode → P s → P (m.after s call))
    (hm : m.Stocks r (decide (mode = .compressed)) I stock shared)
    (h : Passage m r mode I stock shared requested run s t u) (hs : P s) : P u.manager := by
  refine h.underway.keeps_inMode hm (fun call v hcall _ _ _ hv => hP call v hcall hv) h.steps
    (h.keeps_request ?_ hs)
  intro call s haction
  apply hP call s
  cases call <;> simp [Event.action, Event.InMode] at haction ⊢

/-! ## What is made ready -/

section Registers

variable {registered : S → K → Prop}

/-- From `s` to `t` exactly those kinds have been made ready that have been counted once more. -/
structure Readied (registered : S → K → Prop) (s t : Session K S) : Prop where
  degree_le : ∀ x, s.run.degrees.degree x ≤ t.run.degrees.degree x
  registered_iff : ∀ x, registered t.manager x ↔
    registered s.manager x ∨ s.run.degrees.degree x < t.run.degrees.degree x

/-- Where nothing is done nothing is made ready. -/
theorem readied_refl (s : Session K S) : Readied registered s s where
  degree_le _ := Nat.le_refl _
  registered_iff x := by simp

/-- What is made ready in two stretches is made ready in the whole. -/
theorem Readied.trans {s t u : Session K S} (h : Readied registered s t)
    (h' : Readied registered t u) : Readied registered s u where
  degree_le x := Nat.le_trans (h.degree_le x) (h'.degree_le x)
  registered_iff x := by
    have hle := h.degree_le x
    have hle' := h'.degree_le x
    rw [h'.registered_iff, h.registered_iff, or_assoc]
    apply or_congr_right
    omega

variable (hm : m.Registers registered)

include hm

/-- A kind is made ready and counted, whatever else is made ready and counted in between. -/
theorem readied_counted {k : K} {s t u : Session K S} (hmanager : t.manager = m.after s.manager (.ensure k))
    (hrun : t.run = s.run) (h : Readied registered t u) : Readied registered s (counted m k u) := by
  have hdegree : ∀ x, (counted m k u).run.degrees.degree x =
      if x = k then u.run.degrees.degree k + 1 else u.run.degrees.degree x := by
    intro x
    rw [degrees_counted, DegreeMap.degree_increment]
  have hprotect : ∀ x, registered (counted m k u).manager x ↔ registered u.manager x := by
    intro x
    unfold counted
    split
    · exact hm.other (.protect k) _ x (by simp [Event.action])
    · rfl
  have hle : ∀ x, s.run.degrees.degree x ≤ u.run.degrees.degree x := by
    rw [← hrun]
    exact h.degree_le
  constructor
  · intro x
    have hx := hle x
    rw [hdegree]
    split
    · next heq =>
      subst heq
      omega
    · exact hx
  · intro x
    have hx := hle x
    rw [hprotect, h.registered_iff, hmanager, hm.ensure, hdegree, hrun, or_assoc]
    apply or_congr_right
    by_cases hxk : x = k
    · subst hxk
      simp only [true_or, if_true, true_iff]
      omega
    · simp only [hxk, false_or, if_false]

/-- Counting a kind and what it requires makes ready what it counts. -/
theorem requestKind_readies (depth : Nat) :
    ∀ (k : K) (s : Session K S),
      Ends (requestKind m depth k) s (fun _ t => Readied registered s t) fun _ _ => True := by
  induction depth with
  | zero => exact fun k s => readied_refl s
  | succ depth ih =>
    intro k s
    unfold requestKind
    simp only [ends_bind, ends_get, ends_ask]
    refine ⟨?_, fun _ _ _ => trivial⟩
    intro t ht
    have hmanager : t = m.after s.manager (.ensure k) := (Manager.reached_of_ok ht).symm
    have hfirst : ∀ u, Readied registered { s with manager := t } u →
        Readied registered s (counted m k u) := fun u hu =>
      readied_counted hm (t := { s with manager := t }) hmanager rfl hu
    rw [ends_ite]
    constructor
    · intro _
      have hloop : Ends ((s.run.registry.requirements k).forM (requestKind m depth))
          { s with manager := t } (fun _ u => Readied registered { s with manager := t } u)
          fun _ _ => True := by
        apply ends_forM (fun _ u => Readied registered { s with manager := t } u) (readied_refl _)
        intro _ q _ u _ hu
        exact (ih q u).mono (fun _ v hv => hu.trans hv) fun _ _ hF => hF
      rw [ends_bind]
      refine hloop.mono ?_ fun _ _ hF => hF
      intro _ u hu
      rw [ends_countConsumer]
      exact hfirst u hu
    · intro _
      rw [ends_countConsumer]
      exact hfirst _ (readied_refl _)

/-- A request makes ready what it counts. -/
theorem request_readies (s : Session K S) :
    Ends (request m) s (fun _ t => Readied registered s t) fun _ _ => True := by
  unfold request
  rw [ends_bind, ends_get, ends_ite]
  refine ⟨?_, fun _ => trivial⟩
  intro _
  rw [ends_bind]
  refine (ends_forM (fun _ u => Readied registered s u) (readied_refl s) ?_).mono
    (fun _ u hu => ⟨hu.degree_le, hu.registered_iff⟩) fun _ _ hF => hF
  intro _ q _ u _ hu
  exact (requestKind_readies hm _ q u).mono (fun _ v hv => hu.trans hv) fun _ _ hF => hF

/-- The evaluation makes nothing ready. -/
theorem Steps.registered_iff (hsteps : Steps m c c') (k : K) :
    registered c'.session.manager k ↔ registered c.session.manager k := by
  induction hsteps with
  | refl => rfl
  | tail _ hstep ih =>
    rw [← ih]
    rcases hstep.call with heq | ⟨call, hcalls, heq⟩
    · rw [heq]
    · rw [heq]
      apply hm.other call
      rintro haction
      cases call with
      | ensure => exact hcalls
      | _ => cases haction

/-- A run registers what is reachable from its request. -/
theorem Passage.registered_iff
    (h : Passage m r mode I stock shared requested run s t u) (k : K) :
    registered u.manager k ↔ registered s k ∨ r.Reachable requested k := by
  have hreadied : Readied registered ⟨run, s⟩ t := (request_readies hm _).of_ok h.request_eq
  obtain ⟨v, -, hcounted, hcontains, rfl⟩ := request_ok h.start_eq h.request_eq
  have hzero : run.degrees.degree k = 0 := by
    obtain ⟨-, rfl⟩ := start_ok h.start_eq
    exact DegreeMap.degree_empty k
  have hcount : 0 < v.run.degrees.degree k ↔ r.Reachable requested k := by
    rw [← hcontains]
    exact ⟨DegreeMap.contains_of_degree_pos, hcounted.positive k⟩
  rw [Steps.registered_iff hm h.steps]
  show registered v.manager k ↔ _
  rw [hreadied.registered_iff k, ← hcount]
  show _ ∨ run.degrees.degree k < v.run.degrees.degree k ↔ _
  rw [hzero]

end Registers

/-! ## What is left loose -/

section Tight

variable {loose : S → K → Prop}

/-- What a run has asked to compress has been built for the client, and what is loose has neither been
there at the start nor been asked for. -/
structure Tight (loose : S → K → Prop) (base : K → Option V) (c : Stage K S) : Prop where
  asked : ∀ k ∈ c.session.run.compressedKinds,
    k ∈ c.session.run.constructedKinds ∧ k ∈ c.session.run.requestedKinds
  loose : ∀ k, loose c.session.manager k →
    c.session.run.mode ≠ .compressed ∧ base k = none ∧ k ∉ c.session.run.compressedKinds

omit [DecidableEq K] in
/-- A step that lets nothing become loose. -/
theorem Tight.keep (h : Tight loose base c)
    (hloose : ∀ k, loose c'.session.manager k → loose c.session.manager k)
    (hmode : c'.session.run.mode = c.session.run.mode)
    (hrequested : c'.session.run.requestedKinds = c.session.run.requestedKinds)
    (hbuilt : c'.session.run.constructedKinds = c.session.run.constructedKinds)
    (hasked : c'.session.run.compressedKinds = c.session.run.compressedKinds) :
    Tight loose base c' where
  asked := by
    rw [hasked, hbuilt, hrequested]
    exact h.asked
  loose k hk := by
    rw [hmode, hasked]
    exact h.loose k (hloose k hk)

variable (hm : m.Stocks r (decide (mode = .compressed)) I stock shared)
  (htight : m.Tightens (decide (mode = .compressed)) I stock loose)

include htight

/-- A step of a run lets nothing become loose. -/
theorem Tight.step (h : Tight loose base c) (hunder : Underway r mode I stock shared base first c)
    (hstep : Step m c c') : Tight loose base c' := by
  have hstocked := hunder.stocked
  cases hstep with
  | consult _ => exact h.keep (fun _ hk => hk) rfl rfl rfl rfl
  | keepByproduct _ => exact h.keep (fun _ hk => hk) rfl rfl rfl rfl
  | settleSkip _ => exact h.keep (fun _ hk => hk) rfl rfl rfl rfl
  | releaseShared _ _ => exact h.keep (fun _ hk => hk) rfl rfl rfl rfl
  | @dropByproduct s k tasks _ =>
    exact h.keep (htight.other (.discard k true) s.manager · hunder.inner (by simp [Event.action]))
      rfl rfl rfl rfl
  | @releaseLast s k tasks _ =>
    exact h.keep (htight.other (.discard k (k ∉ s.run.requestedKinds)) s.manager · hunder.inner
      (by simp [Event.action])) rfl rfl rfl rfl
  | @releaseToLast s k tasks _ _ =>
    exact h.keep (htight.other (.unprotect k) s.manager · hunder.inner (by simp [Event.action]))
      rfl rfl rfl rfl
  | @construct s k top t _ hok =>
    have hmode : s.run.mode = mode := hunder.mode_eq
    rw [hmode] at hok
    constructor
    · intro j hj
      obtain ⟨hbuilt, hrequested⟩ := h.asked j hj
      exact ⟨KindSet.mem_insert.2 (Or.inl hbuilt), hrequested⟩
    · intro j hj
      rcases htight.construct k s.manager t j hunder.inner hok hj with hold | ⟨hflag, hnone⟩
      · exact h.loose j hold
      · refine ⟨?_, ?_, ?_⟩
        · show s.run.mode ≠ _
          rw [hmode]
          exact of_decide_eq_false hflag
        · rw [← Option.not_isSome_iff_eq_none]
          intro hbase
          have hthere := hstocked.kept j hbase
          rw [hnone] at hthere
          cases hthere
        · -- what has been asked for is waited for by the client, so it is in stock
          intro hj
          obtain ⟨hbuilt, hrequested⟩ := h.asked j hj
          have hthere := hstocked.awaited j hbuilt (Or.inl hrequested)
          rw [hnone] at hthere
          cases hthere
  | @settleDone s k t tasks halone hok =>
    have hafter : m.after s.manager (.compress k) = t := Manager.reached_of_ok hok
    constructor
    · intro j hj
      rcases KindSet.mem_insert.1 hj with hj | rfl
      · exact h.asked j hj
      · exact ⟨(hunder.due.settles j (List.mem_cons_self ..)).2, halone.1⟩
    · intro j hj
      have hold : loose s.manager j := by
        apply htight.other (.compress k) s.manager j hunder.inner (by simp [Event.action])
        rwa [hafter]
      obtain ⟨hmode, hbase, hasked⟩ := h.loose j hold
      refine ⟨hmode, hbase, ?_⟩
      intro hj'
      rcases KindSet.mem_insert.1 hj' with hj' | rfl
      · exact hasked hj'
      · exact htight.compress j s.manager t hunder.inner hok hj

include hm

/-- Steps of a run let nothing become loose. -/
theorem Tight.steps (h : Tight loose base c) (hunder : Underway r mode I stock shared base first c)
    (hsteps : Steps m c c') : Tight loose base c' := by
  induction hsteps with
  | refl => exact h
  | tail hsteps hstep ih => exact ih.step htight (hunder.steps hm hsteps) hstep

/-- When the kinds have been counted, nothing has been built or asked for. -/
theorem Passage.tightened
    (h : Passage m r mode I stock shared requested run s t u) (hI : I s) (hs : ∀ k, ¬ loose s k) :
    Tight loose (stock s) ⟨t, []⟩ ∧ Pending ⟨t, []⟩ := by
  have hloose : I t.manager ∧ ∀ k, ¬ loose t.manager k := by
    refine h.keeps_request (P := fun s => I s ∧ ∀ k, ¬ loose s k) ?_ ⟨hI, hs⟩
    rintro call v haction ⟨hv, hnone⟩
    refine ⟨hm.keeps call v hv, fun k hk => hnone k ?_⟩
    apply htight.other call v k hv _ hk
    rcases haction with haction | haction <;> simp [haction]
  have hfresh : t.run.compressedKinds = .empty ∧ t.run.constructedKinds = .empty := by
    rw [request_run h.start_eq h.request_eq]
    obtain ⟨-, rfl⟩ := start_ok h.start_eq
    exact ⟨rfl, rfl⟩
  refine ⟨⟨?_, fun k hk => absurd hk (hloose.2 k)⟩, ?_⟩
  · intro k hk
    have hk : k ∈ t.run.compressedKinds := hk
    rw [hfresh.1] at hk
    exact absurd hk (KindSet.not_mem_empty k)
  · intro _ k hk
    have hk : k ∈ t.run.constructedKinds := hk
    rw [hfresh.2] at hk
    exact absurd hk (KindSet.not_mem_empty k)

/-- If nothing was loose before, a run in a mode that compresses leaves nothing loose. -/
theorem Passage.not_loose
    (h : Passage m r mode I stock shared requested run s t u) (hI : I s) (hmode : mode ≠ .plain)
    (hs : ∀ k, ¬ loose s k) (k : K) : ¬ loose u.manager k := by
  intro hk
  obtain ⟨htightened, hpending⟩ := h.tightened hm htight hI hs
  have hend := htightened.steps hm htight h.underway h.steps
  have hpending := Pending.steps hpending h.underway.balance h.steps
  obtain ⟨hnot, hbase, hasked⟩ := hend.loose k hk
  have hmode' : u.run.mode = mode := (h.underway.steps hm h.steps).mode_eq
  have hdelayed : u.run.mode = .delayed := by
    have hnot : u.run.mode ≠ .compressed := hnot
    rw [hmode'] at hnot ⊢
    cases mode with
    | plain => exact absurd rfl hmode
    | compressed => exact absurd rfl hnot
    | delayed => rfl
  have hrequested : k ∈ u.run.requestedKinds := by
    apply (h.isSome_or_requested hm (htight.there _ _ hk)).resolve_left
    simp [hbase]
  have hdegree := h.degree_eq k
  rw [if_pos hrequested] at hdegree
  exact absurd (hpending hdelayed k (h.built k hrequested) ⟨hrequested, hdegree, hasked⟩)
    List.not_mem_nil

end Tight

end Run

end TextIndex

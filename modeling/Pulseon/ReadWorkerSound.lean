import Pulseon.ReadWorker
import Pulseon.ViewerSound

/-!
# No read stream gets stuck

The request that a stream waits for is the newest of its kind. Coalescing drops
a request only for one that is as new, so the newest stays on its way until its
event is applied.
-/

namespace Pulseon

/-! ## Slots -/

namespace PendingRequests

def slot (p : PendingRequests) : ReadKind → Option TaggedRequest
  | .catalog => p.discover
  | .overview => p.overview
  | .detail => p.detail

/-- Every slot holds requests of its kind. -/
def Typed (p : PendingRequests) : Prop := ∀ kind t, p.slot kind = some t → t.request.kind = kind

theorem typed_empty : Typed {} := by
  intro kind t h
  cases kind <;> cases h

theorem mem_requests {p : PendingRequests} {t : TaggedRequest} : t ∈ p.requests ↔ ∃ kind, p.slot kind = some t := by
  simp only [requests, List.mem_append, Option.mem_toList, or_assoc]
  constructor
  · intro h
    rcases h with h | h | h
    · exact ⟨.catalog, h⟩
    · exact ⟨.overview, h⟩
    · exact ⟨.detail, h⟩
  · intro h
    obtain ⟨kind, h⟩ := h
    cases kind with
    | catalog => exact Or.inl h
    | overview => exact Or.inr (Or.inl h)
    | detail => exact Or.inr (Or.inr h)

theorem push_slot (p : PendingRequests) (t : TaggedRequest) (kind : ReadKind) :
    (p.push t).slot kind = if kind = t.request.kind then keep (p.slot kind) t else p.slot kind := by
  cases hr : t.request <;> cases kind <;> simp [push, hr, slot, ReadRequest.kind]

theorem keep_eq (s : Option TaggedRequest) (t : TaggedRequest) : keep s t = some t ∨ keep s t = s := by
  unfold keep
  split
  · exact Or.inl rfl
  · exact Or.inr rfl

theorem push_typed {p : PendingRequests} (hp : p.Typed) (t : TaggedRequest) : (p.push t).Typed := by
  intro kind x hx
  rw [push_slot] at hx
  by_cases hk : kind = t.request.kind
  · rw [if_pos hk] at hx
    rcases keep_eq (p.slot kind) t with h | h
    · rw [h] at hx; cases hx; exact hk.symm
    · exact hp kind x (h ▸ hx)
  · rw [if_neg hk] at hx
    exact hp kind x hx

theorem mem_push {p : PendingRequests} {t x : TaggedRequest} (h : x ∈ (p.push t).requests) :
    x ∈ t :: p.requests := by
  obtain ⟨kind, hx⟩ := mem_requests.mp h
  rw [push_slot] at hx
  by_cases hk : kind = t.request.kind
  · rw [if_pos hk] at hx
    rcases keep_eq (p.slot kind) t with h | h
    · rw [h] at hx; cases hx; exact List.mem_cons_self
    · exact List.mem_cons_of_mem _ (mem_requests.mpr ⟨kind, h ▸ hx⟩)
  · rw [if_neg hk] at hx
    exact List.mem_cons_of_mem _ (mem_requests.mpr ⟨kind, hx⟩)

/-- A push never drops the newest request of a kind. -/
theorem push_newest {p : PendingRequests} (hp : p.Typed) {t : TaggedRequest} {generation : Generation}
    {kind : ReadKind} (hmax : ∀ x ∈ t :: p.requests, x.request.kind = kind → x.generation ≤ generation)
    (hx : ∃ x ∈ t :: p.requests, x.tag = (generation, kind)) :
    ∃ x ∈ (p.push t).requests, x.tag = (generation, kind) := by
  obtain ⟨x, hx, htag⟩ := hx
  obtain ⟨hg, hk⟩ := Prod.mk.inj htag
  by_cases ht : kind = t.request.kind
  · have hslot : (p.push t).slot kind = keep (p.slot kind) t := by rw [push_slot, if_pos ht]
    unfold keep at hslot
    by_cases hold : (p.slot kind).all fun pending => pending.generation ≤ t.generation
    · rw [if_pos hold] at hslot
      have hle := hmax t List.mem_cons_self ht.symm
      have hge : generation ≤ t.generation := by
        rcases List.mem_cons.mp hx with rfl | hx
        · exact le_of_eq hg.symm
        · obtain ⟨k, hs⟩ := mem_requests.mp hx
          obtain rfl : k = kind := (hp k x hs).symm.trans hk
          rw [hs] at hold
          simpa [hg] using hold
      exact ⟨t, mem_requests.mpr ⟨kind, hslot⟩, by rw [TaggedRequest.tag, le_antisymm hle hge, ht]⟩
    · rw [if_neg hold] at hslot
      cases hs : p.slot kind with
      | none => simp [hs] at hold
      | some y =>
        have hlt : t.generation < y.generation := by simpa [hs] using hold
        have hy : y ∈ p.requests := mem_requests.mpr ⟨kind, hs⟩
        have hle := hmax y (List.mem_cons_of_mem _ hy) (hp kind y hs)
        rcases List.mem_cons.mp hx with rfl | hx
        · exact absurd (lt_of_lt_of_le hlt hle) (by simp [hg])
        · obtain ⟨k, hs'⟩ := mem_requests.mp hx
          obtain rfl : k = kind := (hp k x hs').symm.trans hk
          exact ⟨x, mem_requests.mpr ⟨k, hslot.trans hs'⟩, htag⟩
  · rcases List.mem_cons.mp hx with rfl | hx
    · exact absurd hk.symm ht
    · obtain ⟨k, hs⟩ := mem_requests.mp hx
      obtain rfl : k = kind := (hp k x hs).symm.trans hk
      exact ⟨x, mem_requests.mpr ⟨k, by rw [push_slot, if_neg ht, hs]⟩, htag⟩

theorem takeNext_none {p : PendingRequests} (h : p.takeNext = none) : p.requests = [] := by
  obtain ⟨discover, overview, detail⟩ := p
  cases discover <;> cases overview <;> cases detail <;> simp_all [takeNext, requests]

theorem takeNext_some {p q : PendingRequests} {t : TaggedRequest} (h : p.takeNext = some (t, q)) :
    p.requests = t :: q.requests ∧ ∀ kind x, q.slot kind = some x → p.slot kind = some x := by
  obtain ⟨discover, overview, detail⟩ := p
  cases discover with
  | some x =>
    cases h
    refine ⟨rfl, fun kind x hx => ?_⟩
    cases kind
    · cases hx
    · exact hx
    · exact hx
  | none =>
    cases overview with
    | some x =>
      cases h
      refine ⟨rfl, fun kind x hx => ?_⟩
      cases kind
      · exact hx
      · cases hx
      · exact hx
    | none =>
      cases detail with
      | some x =>
        cases h
        refine ⟨rfl, fun kind x hx => ?_⟩
        cases kind
        · exact hx
        · exact hx
        · cases hx
      | none => cases h

end PendingRequests

/-! ## Events -/

theorem execute_tag (session : Except String ReadSession) (t : TaggedRequest) :
    (execute session t).tag = t.tag := rfl

theorem execute_kind {session : Except String ReadSession} {t : TaggedRequest} {snapshot : ReadSnapshot}
    (h : (execute session t).result = .ok snapshot) : snapshot.kind = t.request.kind := by
  cases session with
  | error error => cases h
  | ok session =>
    cases hr : t.request with
    | discover request =>
      simp only [execute, hr, bind, Except.bind, pure, Except.pure] at h
      cases hs : session.discover request <;> rw [hs] at h <;> cases h
      rfl
    | overview request =>
      simp only [execute, hr, bind, Except.bind, pure, Except.pure] at h
      cases hs : session.queryOverview request <;> rw [hs] at h <;> cases h
      rfl
    | detail request =>
      simp only [execute, hr, bind, Except.bind, pure, Except.pure] at h
      cases hs : session.queryDetail request <;> rw [hs] at h <;> cases h
      rfl

/-! ## Expectations -/

def Narrows (core core' : ViewerCore) : Prop :=
  ∀ kind, core'.expected kind = core.expected kind ∨ core'.expected kind = none

theorem Narrows.expected {core core' : ViewerCore} (h : Narrows core core') {kind : ReadKind}
    {generation : Generation}
    (he : core'.expected kind = some generation) : core.expected kind = some generation := by
  rcases h kind with e | e
  · exact e ▸ he
  · simp [e] at he

theorem Narrows.trans {a b c : ViewerCore} (h : Narrows a b) (h' : Narrows b c) : Narrows a c := by
  intro kind
  rcases h' kind with e | e
  · rw [e]; exact h kind
  · exact Or.inr e

theorem Clears.narrows {core core' : ViewerCore} (h : Clears core core') : Narrows core core' := by
  intro kind
  cases kind with
  | catalog => exact h.catalog
  | overview => exact Or.inr h.expectedOverview
  | detail => exact Or.inr h.expectedDetail

theorem effect_narrows {core core' : ViewerCore} (h : Keeps core core' ∨ Clears core core') :
    Narrows core core' := by
  rcases h with h | h
  · exact h.expected
  · exact h.narrows

section
variable {core core' : ViewerCore} {event : ReadEvent}

/-- An applied event is the expected one, and its kind is not expected after. -/
theorem apply_applied (h : core.apply event = some (core', .applied)) :
    core.expected event.kind = some event.generation ∧ Narrows core core' ∧ core'.expected event.kind = none := by
  have hreceived : Narrows core (core.received event) := (keeps_dropped core event.kind).expected
  have hnone : (core.received event).expected event.kind = none := by simp [ViewerCore.received]
  rcases apply_cases core h with ⟨-, hout⟩ | ⟨-, he, hcase⟩
  · exact absurd rfl hout
  refine ⟨he, ?_⟩
  have hnarrows : Narrows (core.received event) core' := by
    rcases hcase with ⟨error, -, rfl⟩ | ⟨s, -, -, rfl⟩ | ⟨s, -, -, ho⟩ | ⟨s, -, -, rfl⟩
    · exact fun _ => Or.inl rfl
    · exact effect_narrows (applyCatalog_effect _ s)
    · exact (applyOverview_effect _ ho).2.expected
    · exact fun _ => Or.inl rfl
  refine ⟨hreceived.trans hnarrows, ?_⟩
  rcases hnarrows event.kind with e | e
  · rw [e, hnone]
  · exact e

/-- The expected event is applied when it carries a snapshot of its kind. -/
theorem apply_expected (he : core.expected event.kind = some event.generation)
    (hk : ∀ snapshot, event.result = .ok snapshot → snapshot.kind = event.kind) {outcome : ApplyOutcome}
    (h : core.apply event = some (core', outcome)) : outcome = .applied := by
  unfold ViewerCore.apply at h
  rw [if_neg (not_not_intro he)] at h
  cases hr : event.result with
  | error error => rw [hr] at h; cases h; rfl
  | ok snapshot =>
    simp only [hr] at h
    rw [if_neg (not_not_intro (hk snapshot hr))] at h
    cases snapshot with
    | catalog s => cases h; rfl
    | overview s =>
      obtain ⟨c, -, e⟩ := Option.map_eq_some_iff.mp h
      cases e
      rfl
    | detail s => cases h; rfl

theorem apply_ignored {outcome : ApplyOutcome} (h : core.apply event = some (core', outcome))
    (ho : outcome ≠ .applied) :
    core' = core := by
  rcases apply_cases core h with ⟨rfl, -⟩ | ⟨e, -⟩
  · rfl
  · exact absurd e ho

end

/-! ## Order -/

/-- What is expected is the newest of its kind and newer than what was applied. -/
structure Reader.InOrder (r : Reader) : Prop where
  newest : ∀ kind generation, r.core.expected kind = some generation →
    (generation, kind) ∈ r.begun ∧ ∀ b ∈ r.begun, b.2 = kind → b.1 ≤ generation
  before : ∀ kind generation, r.core.expected kind = some generation →
    ∀ a ∈ r.applied, a.2 = kind → a.1 < generation
  begun : ∀ a ∈ r.applied, a ∈ r.begun
  ordered : r.applied.Pairwise fun newer older => newer.2 = older.2 → older.1 < newer.1

section
variable {r : Reader}

theorem Reader.InOrder.narrow (hr : r.InOrder) {r' : Reader} (h : Narrows r.core r'.core) (hb : r'.begun = r.begun)
    (ha : r'.applied = r.applied) : r'.InOrder where
  newest kind generation he := hb ▸ hr.newest kind generation (h.expected he)
  before kind generation he := ha ▸ hr.before kind generation (h.expected he)
  begun := by rw [hb, ha]; exact hr.begun
  ordered := by rw [ha]; exact hr.ordered

theorem Reader.InOrder.submit (hr : r.InOrder) {generation : Generation} {request : ReadRequest}
    (hl : ∀ b ∈ r.begun, b.1 < generation) : (r.submit generation request).InOrder where
  newest kind g he := by
    by_cases hk : kind = request.kind
    · have hg : generation = g := by simpa [Reader.submit, ViewerCore.begin, hk] using he
      subst hg hk
      refine ⟨List.mem_cons_self, fun b hb _ => ?_⟩
      rcases List.mem_cons.mp hb with rfl | hb
      · exact le_rfl
      · exact le_of_lt (hl b hb)
    · have ho : r.core.expected kind = some g := by simpa [Reader.submit, ViewerCore.begin, hk] using he
      obtain ⟨hmem, hmax⟩ := hr.newest kind g ho
      refine ⟨List.mem_cons_of_mem _ hmem, fun b hb hbk => ?_⟩
      rcases List.mem_cons.mp hb with rfl | hb
      · exact absurd hbk.symm hk
      · exact hmax b hb hbk
  before kind g he a ha hak := by
    by_cases hk : kind = request.kind
    · have hg : generation = g := by simpa [Reader.submit, ViewerCore.begin, hk] using he
      exact hg ▸ hl a (hr.begun a ha)
    · have ho : r.core.expected kind = some g := by simpa [Reader.submit, ViewerCore.begin, hk] using he
      exact hr.before kind g ho a ha hak
  begun a ha := List.mem_cons_of_mem _ (hr.begun a ha)
  ordered := hr.ordered

/-- Whether it is applied or not, delivering an event keeps the order. -/
theorem Reader.InOrder.deliver (hr : r.InOrder) {r' : Reader} (h : r.deliver = some r') : r'.InOrder := by
  unfold Reader.deliver at h
  cases hev : r.events with
  | nil => simp [hev] at h
  | cons event events =>
    simp only [hev] at h
    obtain ⟨⟨core, outcome⟩, ha, rfl⟩ := Option.map_eq_some_iff.mp h
    by_cases ho : outcome = .applied
    · subst ho
      obtain ⟨he, hnarrows, hnone⟩ := apply_applied ha
      obtain ⟨hmem, -⟩ := hr.newest _ _ he
      simp only [ite_true]
      refine ⟨fun kind g hk => hr.newest kind g (hnarrows.expected hk),
        fun kind g hk a hin hak => ?_, fun a hin => ?_, ?_⟩
      · rcases List.mem_cons.mp hin with rfl | hin
        · rw [← hak] at hk
          exact absurd (hnone.symm.trans hk) (by simp)
        · exact hr.before kind g (hnarrows.expected hk) a hin hak
      · rcases List.mem_cons.mp hin with rfl | hin
        · exact hmem
        · exact hr.begun a hin
      · refine List.pairwise_cons.mpr ⟨fun a hin hak => ?_, hr.ordered⟩
        exact hr.before _ _ he a hin hak.symm
    · obtain rfl := apply_ignored ha ho
      exact hr.narrow (fun _ => Or.inl rfl) rfl (if_neg ho)

theorem Reader.worker_step {op : ReaderOp} {r' : Reader} (h : r.step op = some r') :
    (∃ change, op = .change change ∧ r' = { r with core := r.core.change change }) ∨
      (∃ generation request, op = .submit generation request ∧ r' = r.submit generation request) ∨
      (op = .deliver ∧ r.deliver = some r') ∨
      (r'.core = r.core ∧ r'.begun = r.begun ∧ r'.applied = r.applied) := by
  cases op with
  | change change => cases h; exact Or.inl ⟨change, rfl, rfl⟩
  | submit generation request => cases h; exact Or.inr (Or.inl ⟨generation, request, rfl, rfl⟩)
  | deliver => exact Or.inr (Or.inr (Or.inl ⟨rfl, h⟩))
  | recv | drain | drained | take | execute session =>
    refine Or.inr (Or.inr (Or.inr ?_))
    unfold Reader.step at h
    grind

theorem Reader.InOrder.step (hr : r.InOrder) {op : ReaderOp} {r' : Reader} (hl : r.Legal op)
    (h : r.step op = some r') :
    r'.InOrder := by
  rcases Reader.worker_step h with ⟨change, rfl, rfl⟩ | ⟨generation, request, rfl, rfl⟩ | ⟨rfl, hd⟩ | ⟨hc, hb, ha⟩
  · exact hr.narrow (effect_narrows (change_effect r.core change)) rfl rfl
  · exact hr.submit hl
  · exact hr.deliver hd
  · refine hr.narrow ?_ hb ha
    rw [hc]
    exact fun _ => Or.inl rfl

end

/-! ## Requests on their way -/

def WorkerLoop.pending : WorkerLoop → PendingRequests
  | .waiting => {}
  | .draining pending => pending
  | .drained pending => pending
  | .executing _ pending => pending

def Reader.inFlight (r : Reader) : List (Generation × ReadKind) :=
  (r.channel ++ r.worker.requests).map TaggedRequest.tag ++ r.events.map ReadEvent.tag

/-- Everything on its way was begun, and what is expected is on its way. -/
structure Reader.Carried (r : Reader) : Prop where
  typed : r.worker.pending.Typed
  begun : ∀ t ∈ r.inFlight, t ∈ r.begun
  kinds : ∀ event ∈ r.events, ∀ snapshot, event.result = .ok snapshot → snapshot.kind = event.kind
  flight : ∀ kind generation, r.core.expected kind = some generation → (generation, kind) ∈ r.inFlight

theorem Reader.mem_inFlight {r : Reader} {tag : Generation × ReadKind} :
    tag ∈ r.inFlight ↔
      (∃ t ∈ r.channel, t.tag = tag) ∨ (∃ t ∈ r.worker.requests, t.tag = tag) ∨ ∃ e ∈ r.events, e.tag = tag := by
  simp [Reader.inFlight]

section
variable {r : Reader} (hr : r.Carried)
include hr

/-- Requests may move as long as the same ones are on their way. -/
theorem Reader.Carried.move {r' : Reader} (hflight : ∀ tag, tag ∈ r'.inFlight ↔ tag ∈ r.inFlight)
    (hcore : Narrows r.core r'.core) (hbegun : r'.begun = r.begun) (htyped : r'.worker.pending.Typed)
    (hkinds : ∀ event ∈ r'.events, ∀ snapshot, event.result = .ok snapshot → snapshot.kind = event.kind) :
      r'.Carried where
  typed := htyped
  begun t ht := hbegun ▸ hr.begun t ((hflight t).mp ht)
  kinds := hkinds
  flight kind generation he := (hflight _).mpr (hr.flight kind generation (hcore.expected he))

theorem Reader.Carried.submit {generation : Generation} {request : ReadRequest} :
    (r.submit generation request).Carried where
  typed := hr.typed
  begun tag ht := by
    rcases Reader.mem_inFlight.mp ht with ⟨t, hc, rfl⟩ | h | h
    · rcases List.mem_append.mp hc with hc | hc
      · exact List.mem_cons_of_mem _ (hr.begun _ (Reader.mem_inFlight.mpr (Or.inl ⟨t, hc, rfl⟩)))
      · obtain rfl := List.mem_singleton.mp hc
        exact List.mem_cons_self
    · exact List.mem_cons_of_mem _ (hr.begun _ (Reader.mem_inFlight.mpr (Or.inr (Or.inl h))))
    · exact List.mem_cons_of_mem _ (hr.begun _ (Reader.mem_inFlight.mpr (Or.inr (Or.inr h))))
  kinds := hr.kinds
  flight kind g he := by
    apply Reader.mem_inFlight.mpr
    by_cases hk : kind = request.kind
    · have hg : generation = g := by simpa [Reader.submit, ViewerCore.begin, hk] using he
      refine Or.inl ⟨⟨generation, request⟩, by simp [Reader.submit], ?_⟩
      rw [TaggedRequest.tag, hg, hk]
    · have ho : r.core.expected kind = some g := by simpa [Reader.submit, ViewerCore.begin, hk] using he
      rcases Reader.mem_inFlight.mp (hr.flight kind g ho) with ⟨t, hc, ht⟩ | h | h
      · exact Or.inl ⟨t, by simp [Reader.submit, hc], ht⟩
      · exact Or.inr (Or.inl h)
      · exact Or.inr (Or.inr h)

/-- The first request of the channel is pushed into the worker's slots. -/
theorem Reader.Carried.push (ho : r.InOrder) {t : TaggedRequest} {channel : List TaggedRequest}
    {p : PendingRequests}
    (hchannel : r.channel = t :: channel) (hp : p.Typed) (hworker : r.worker.requests = p.requests) :
    Reader.Carried { r with channel := channel, worker := .draining (p.push t) } where
  typed := PendingRequests.push_typed hp t
  begun tag ht := by
    apply hr.begun
    rcases Reader.mem_inFlight.mp ht with ⟨x, hx, hxt⟩ | ⟨x, hx, hxt⟩ | h
    · exact Reader.mem_inFlight.mpr (Or.inl ⟨x, hchannel ▸ List.mem_cons_of_mem _ hx, hxt⟩)
    · rcases List.mem_cons.mp (PendingRequests.mem_push hx) with rfl | hx
      · exact Reader.mem_inFlight.mpr (Or.inl ⟨x, hchannel ▸ List.mem_cons_self, hxt⟩)
      · exact Reader.mem_inFlight.mpr (Or.inr (Or.inl ⟨x, hworker ▸ hx, hxt⟩))
    · exact Reader.mem_inFlight.mpr (Or.inr (Or.inr h))
  kinds := hr.kinds
  flight kind generation he := by
    have hin : ∀ x ∈ t :: p.requests, x.tag ∈ r.inFlight := by
      intro x hx
      rcases List.mem_cons.mp hx with rfl | hx
      · exact Reader.mem_inFlight.mpr (Or.inl ⟨x, hchannel ▸ List.mem_cons_self, rfl⟩)
      · exact Reader.mem_inFlight.mpr (Or.inr (Or.inl ⟨x, hworker ▸ hx, rfl⟩))
    have hmax : ∀ x ∈ t :: p.requests, x.request.kind = kind → x.generation ≤ generation :=
      fun x hx hk => (ho.newest kind generation he).2 x.tag (hr.begun _ (hin x hx)) hk
    have hpushed : (∃ x ∈ t :: p.requests, x.tag = (generation, kind)) →
        ∃ x ∈ (p.push t).requests, x.tag = (generation, kind) := PendingRequests.push_newest hp hmax
    apply Reader.mem_inFlight.mpr
    rcases Reader.mem_inFlight.mp (hr.flight kind generation he) with ⟨x, hx, hxt⟩ | ⟨x, hx, hxt⟩ | h
    · rcases List.mem_cons.mp (hchannel ▸ hx) with rfl | hx
      · exact Or.inr (Or.inl (hpushed ⟨x, List.mem_cons_self, hxt⟩))
      · exact Or.inl ⟨x, hx, hxt⟩
    · exact Or.inr (Or.inl (hpushed ⟨x, List.mem_cons_of_mem _ (hworker ▸ hx), hxt⟩))
    · exact Or.inr (Or.inr h)

theorem Reader.Carried.take {p : PendingRequests} (hworker : r.worker = .drained p) {r' : Reader}
    (h : r.step .take = some r') : r'.Carried := by
  simp only [Reader.step, hworker] at h
  cases hp : p.takeNext with
  | none =>
    simp only [hp, Option.some.injEq] at h
    subst h
    refine hr.move (fun tag => ?_) (fun _ => Or.inl rfl) rfl PendingRequests.typed_empty hr.kinds
    simp [Reader.mem_inFlight, hworker, WorkerLoop.requests, PendingRequests.takeNext_none hp]
  | some taken =>
    obtain ⟨t, q⟩ := taken
    simp only [hp, Option.some.injEq] at h
    subst h
    obtain ⟨hreq, hsub⟩ := PendingRequests.takeNext_some hp
    have hq : q.Typed := fun kind x hx => hr.typed kind x (by rw [hworker]; exact hsub kind x hx)
    refine hr.move (fun tag => ?_) (fun _ => Or.inl rfl) rfl hq hr.kinds
    simp [Reader.mem_inFlight, hworker, WorkerLoop.requests, hreq]

theorem Reader.Carried.execute {t : TaggedRequest} {p : PendingRequests} (hworker : r.worker = .executing t p)
    (session : Except String ReadSession) :
    Reader.Carried { r with worker := .draining p, events := r.events ++ [Pulseon.execute session t] } := by
  have htyped : p.Typed := by simpa [WorkerLoop.pending, hworker] using hr.typed
  refine hr.move (fun tag => ?_) (fun _ => Or.inl rfl) rfl htyped (fun event he snapshot hs => ?_)
  · simp only [Reader.mem_inFlight, hworker, WorkerLoop.requests, List.mem_append, List.mem_cons, List.not_mem_nil,
      or_and_right, exists_or, exists_eq_left, execute_tag, false_and, exists_false]
    grind
  · rcases List.mem_append.mp he with he | he
    · exact hr.kinds event he snapshot hs
    · obtain rfl := List.mem_singleton.mp he
      exact execute_kind hs

theorem Reader.Carried.deliver {r' : Reader} (h : r.deliver = some r') : r'.Carried := by
  unfold Reader.deliver at h
  cases hev : r.events with
  | nil => simp [hev] at h
  | cons event events =>
    simp only [hev] at h
    obtain ⟨⟨core, outcome⟩, ha, rfl⟩ := Option.map_eq_some_iff.mp h
    have hkinds := hr.kinds event (hev ▸ List.mem_cons_self)
    have hnarrows : Narrows r.core core := by
      by_cases ho : outcome = .applied
      · subst ho; exact (apply_applied ha).2.1
      · rw [apply_ignored ha ho]; exact fun _ => Or.inl rfl
    refine ⟨hr.typed, fun tag ht => hr.begun tag ?_, fun e he =>
      hr.kinds e (hev ▸ List.mem_cons_of_mem _ he), fun kind g he => ?_⟩
    · rcases Reader.mem_inFlight.mp ht with h | h | ⟨e, he, het⟩
      · exact Reader.mem_inFlight.mpr (Or.inl h)
      · exact Reader.mem_inFlight.mpr (Or.inr (Or.inl h))
      · exact Reader.mem_inFlight.mpr (Or.inr (Or.inr ⟨e, hev ▸ List.mem_cons_of_mem _ he, het⟩))
    · rcases Reader.mem_inFlight.mp (hr.flight kind g (hnarrows.expected he)) with h | h | ⟨e, hin, het⟩
      · exact Reader.mem_inFlight.mpr (Or.inl h)
      · exact Reader.mem_inFlight.mpr (Or.inr (Or.inl h))
      · rcases List.mem_cons.mp (hev ▸ hin) with rfl | hin
        -- the expected event itself is applied, and then nothing is expected
        · obtain ⟨hg, hk⟩ := Prod.mk.inj het
          have hexp : r.core.expected e.kind = some e.generation := hg ▸ hk ▸ hnarrows.expected he
          obtain rfl := apply_expected hexp hkinds ha
          exact absurd ((apply_applied ha).2.2.symm.trans (hk ▸ he)) (by simp)
        · exact Reader.mem_inFlight.mpr (Or.inr (Or.inr ⟨e, hin, het⟩))

theorem Reader.Carried.step (ho : r.InOrder) {op : ReaderOp} {r' : Reader} (h : r.step op = some r') :
    r'.Carried := by
  cases op with
  | change change =>
    cases h
    refine hr.move (fun tag => Iff.rfl) (effect_narrows (change_effect r.core change)) rfl hr.typed hr.kinds
  | submit generation request => cases h; exact hr.submit
  | deliver => exact hr.deliver h
  | recv =>
    cases hw : r.worker <;> cases hc : r.channel <;> simp only [Reader.step, hw, hc, reduceCtorEq] at h
    cases h
    exact hr.push ho hc PendingRequests.typed_empty (by rw [hw]; rfl)
  | drain =>
    cases hw : r.worker <;> cases hc : r.channel <;> simp only [Reader.step, hw, hc, reduceCtorEq] at h
    cases h
    have htyped := hr.typed
    rw [hw] at htyped
    exact hr.push ho hc htyped (by rw [hw]; rfl)
  | drained =>
    cases hw : r.worker <;> cases hc : r.channel <;> simp only [Reader.step, hw, hc, reduceCtorEq] at h
    cases h
    refine hr.move (fun tag => ?_) (fun _ => Or.inl rfl) rfl
      (by simpa [hw, WorkerLoop.pending] using hr.typed) hr.kinds
    simp [Reader.mem_inFlight, hw, hc, WorkerLoop.requests]
  | take =>
    cases hw : r.worker with
    | drained pending => exact hr.take hw h
    | _ => simp only [Reader.step, hw, reduceCtorEq] at h
  | execute session =>
    cases hw : r.worker with
    | executing t pending =>
      simp only [Reader.step, hw, Option.some.injEq] at h
      exact h ▸ hr.execute hw session
    | _ => simp only [Reader.step, hw, reduceCtorEq] at h

end

/-! ## Runs -/

theorem reader_init : Reader.InOrder {} ∧ Reader.Carried {} :=
  ⟨⟨by simp, by simp, by simp, List.Pairwise.nil⟩,
    ⟨PendingRequests.typed_empty, by simp [Reader.inFlight, WorkerLoop.requests],
    by simp, by simp⟩⟩

theorem not_pending_of_quiet {r : Reader} (hr : r.Carried) (hq : r.Quiet) (kind : ReadKind) :
    r.core.isPending kind = false := by
  cases he : r.core.expected kind with
  | none => simp [ViewerCore.isPending, he]
  | some generation =>
    have hin := hr.flight kind generation he
    simp [Reader.inFlight, hq.channel, hq.worker, hq.events] at hin

theorem read_streams_settle {ops : List ReaderOp} {r : Reader} (hm : Meets Reader.step Reader.Legal {} ops)
    (h : exec Reader.step {} ops = some r) :
    (r.Quiet → ∀ kind, r.core.isPending kind = false) ∧
    (∀ event core, r.core.apply event = some (core, .applied) →
      (event.generation, event.kind) ∈ r.begun ∧ ∀ b ∈ r.begun, b.2 = event.kind → b.1 ≤ event.generation) ∧
    r.applied.Pairwise fun newer older => newer.2 = older.2 → older.1 < newer.1 := by
  have hr : r.InOrder ∧ r.Carried :=
    @exec_inv _ _ Reader.step Reader.Legal (fun r => r.InOrder ∧ r.Carried)
      (fun _ _ _ hl hs hr => ⟨hr.1.step hl hs, hr.2.step hr.1 hs⟩) _ _ _ hm h reader_init
  refine ⟨not_pending_of_quiet hr.2, fun event core ha => ?_, hr.1.ordered⟩
  exact hr.1.newest _ _ (apply_applied ha).1

/-- A catalog is asked for twice before the worker wakes up; the first request is dropped. -/
def coalescedOps : List ReaderOp :=
  [.submit 1 (.discover ⟨none, []⟩), .submit 2 (.discover ⟨none, []⟩), .recv, .drain, .drained, .take,
    .execute (.error "no source"), .drained, .take, .deliver]

theorem read_streams_settle_coalesced : ∃ r, exec Reader.step {} coalescedOps = some r ∧ r.Quiet ∧
    r.begun = [(2, .catalog), (1, .catalog)] ∧ r.applied = [(2, .catalog)] ∧ r.core.lastError = some "no source" ∧
    ∀ kind, r.core.isPending kind = false := by
  have hm : Meets Reader.step Reader.Legal {} coalescedOps := by
    refine ⟨fun _ hb => (List.not_mem_nil hb).elim, fun _ h => ?_⟩
    cases h
    refine ⟨by simp [Reader.Legal, Reader.submit], fun _ h => ?_⟩
    cases h
    exact meets_of_forall Reader.step (by simp [Reader.Legal]) _
  have hexec : ∃ r, exec Reader.step {} coalescedOps = some r ∧ r.Quiet ∧ r.begun = [(2, .catalog), (1, .catalog)] ∧
      r.applied = [(2, .catalog)] ∧ r.core.lastError = some "no source" := ⟨_, rfl, ⟨rfl, rfl, rfl⟩, rfl, rfl, rfl⟩
  obtain ⟨r, hr, hq, hb, ha, he⟩ := hexec
  exact ⟨r, hr, hq, hb, ha, he, (read_streams_settle hm hr).1 hq⟩

end Pulseon

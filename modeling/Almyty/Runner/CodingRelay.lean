import Almyty.Lib.Steps

/-!
# The coding transcript: `ordered-sender.ts`, `runner/coding-relay.service.ts`

A runner posts its coding output one envelope at a time: the next only when the one before was
answered or given up on. A POST that fails is sent again under the same envelope id. The backend
appends an envelope to its session's stream in one script, unless the newest entry there has that id
already, and answers afterwards.

"The newest entry is enough because the runner sends one envelope at a time" is true of the runner
and not of its requests: a request the runner has given up on is still somewhere, and may be
recorded when the runner is long past it. `transcript_stored_once` says which requests may be
recorded when, for the transcript to be what was enqueued less what was dropped.

Mirroring notes:
- The transcript is what has been appended; its approximate length bound and its expiry are left
  out.
- A request is recorded at most once, at any later time or never. An answer reaches the sender only
  for a recorded request; a failure may reach it at any time.
-/

namespace Almyty.Runner

open Almyty.Lib List
open Function (update update_self update_of_ne)

inductive WorkerEnvelopeType
  | request | response | event | heartbeat | error
  deriving DecidableEq

structure WorkerEnvelope where
  type : WorkerEnvelopeType := .event
  id : String
  kind : List Char := "coding.output".toList
  sessionId : String
  data : String := ""
  deriving DecidableEq

def WorkerEnvelope.codingSession (env : WorkerEnvelope) : Option String :=
  if env.type = .event ∧ "coding.".toList.isPrefixOf env.kind ∧ env.sessionId ≠ "" then
    some env.sessionId
  else none

def isRetryable : Option Nat → Bool
  | none => true
  | some status => status ≥ 500 || status = 429 || status = 408 || status = 404

inductive Delivery
  | idle
  /-- It waits for the answer to a request. -/
  | sending (attempt request : Nat)
  /-- It sleeps before the next attempt. -/
  | sleeping (attempt : Nat)

structure Request where
  env : WorkerEnvelope
  recorded : Bool := false

structure OrderedSenderOptions where
  /-- The number of `retryDelaysMs`. -/
  retries : Nat := 12
  maxQueued : Nat := 10000

structure Relay where
  queue : List WorkerEnvelope := []
  delivery : Delivery := .idle
  stopped : Bool := false
  /-- Every request posted so far. -/
  requests : List Request := []
  /-- What has been appended for each coding session. -/
  transcript : String → List WorkerEnvelope := fun _ => []
  /-- Every envelope handed to `enqueue`, those answered, and those given up on. -/
  enqueued : List WorkerEnvelope := []
  answered : List WorkerEnvelope := []
  dropped : List WorkerEnvelope := []

namespace Relay

inductive Action
  | enqueue (env : WorkerEnvelope)
  /-- The backend handles a request; `mapped` is whether its session has a runner. -/
  | handle (request : Nat) (mapped : Bool)
  /-- The answer to the request the sender waits for. -/
  | answer
  | fail (status : Option Nat)
  | wake
  | stop

/-! ## The sender -/

def post (s : Relay) (attempt : Nat) : Relay :=
  match s.queue with
  | [] => { s with delivery := .idle }
  | env :: _ =>
    { s with delivery := .sending attempt s.requests.length, requests := s.requests ++ [{ env }] }

/-- `deliver` has returned: the next envelope, unless the sender was stopped. -/
def shift (s : Relay) : Relay := post { s with queue := s.queue.tail } 0

def enqueue (opts : OrderedSenderOptions) (s : Relay) (env : WorkerEnvelope) : Relay :=
  let s := { s with enqueued := s.enqueued ++ [env] }
  if s.stopped then { s with dropped := s.dropped ++ [env] }
  else if s.queue.length ≥ opts.maxQueued then { s with dropped := s.dropped ++ [env] }
  else
    let s := { s with queue := s.queue ++ [env] }
    match s.delivery with
    | .idle => s.post 0
    | _ => s

def givesUp (opts : OrderedSenderOptions) (attempt : Nat) (status : Option Nat) : Bool :=
  !isRetryable status || attempt ≥ opts.retries

def fail (opts : OrderedSenderOptions) (s : Relay) (status : Option Nat) : Relay :=
  match s.delivery with
  | .sending attempt _ =>
    if s.stopped then s.shift
    else if givesUp opts attempt status then
      shift { s with dropped := s.dropped ++ s.queue.take 1 }
    else { s with delivery := .sleeping attempt }
  | _ => s

def wake (s : Relay) : Relay :=
  match s.delivery with
  | .sleeping attempt => if s.stopped then s.shift else s.post (attempt + 1)
  | _ => s

/-- Whatever is still queued is dropped, the envelope in flight included. -/
def stop (s : Relay) : Relay :=
  { s with stopped := true, queue := [], dropped := s.dropped ++ s.queue }

/-! ## The backend -/

/-- `APPEND_ONCE_SCRIPT`. -/
def appendOnce (backlog : List WorkerEnvelope) (env : WorkerEnvelope) : List WorkerEnvelope :=
  if (backlog.getLast?).any (·.id = env.id) then backlog else backlog ++ [env]

def record (transcript : String → List WorkerEnvelope) (env : WorkerEnvelope) (mapped : Bool) :
    String → List WorkerEnvelope :=
  match env.codingSession with
  | none => transcript
  | some sid =>
    if mapped then update transcript sid (appendOnce (transcript sid) env) else transcript

def handle (s : Relay) (r : Nat) (mapped : Bool) : Relay :=
  match s.requests[r]? with
  | some request =>
    if request.recorded then s
    else { s with
      transcript := record s.transcript request.env mapped,
      requests := s.requests.set r { request with recorded := true } }
  | none => s

/-- A 202 means the request was handled. -/
def answer (s : Relay) : Relay :=
  match s.delivery with
  | .sending _ r =>
    if (s.requests[r]?).any (·.recorded) then
      shift { s with answered := s.answered ++ s.queue.take 1 }
    else s
  | _ => s

def step (opts : OrderedSenderOptions) (s : Relay) : Action → Relay
  | .enqueue env => s.enqueue opts env
  | .handle r mapped => s.handle r mapped
  | .answer => s.answer
  | .fail status => s.fail opts status
  | .wake => s.wake
  | .stop => s.stop

/-! ## What is stored -/

/-- What was enqueued for a coding session, less what was dropped. -/
def expected (s : Relay) (sid : String) : List WorkerEnvelope :=
  (s.enqueued.filter (· ∉ s.dropped)).filter (·.codingSession = some sid)

/-- No envelope is stored twice, those stored are the first that were enqueued and not
dropped, and all of them are once the queue is empty. -/
def StoredOnce (s : Relay) : Prop :=
  ∀ sid, ((s.transcript sid).map (·.id)).Nodup ∧ s.transcript sid <+: s.expected sid ∧
    (s.queue = [] → s.transcript sid = s.expected sid)

def newest (s : Relay) (env : WorkerEnvelope) : Bool :=
  env.codingSession.any fun sid => (s.transcript sid).getLast?.any (·.id = env.id)

def givesUpOn (opts : OrderedSenderOptions) (s : Relay) (status : Option Nat) : Bool :=
  match s.delivery with
  | .sending attempt _ => givesUp opts attempt status
  | _ => false

def Kept (opts : OrderedSenderOptions) (s : Relay) : Action → Prop
  | .enqueue env => env.id ∉ s.enqueued.map (·.id)
  | .handle r mapped => ∀ request ∈ s.requests[r]?, request.recorded = false →
      request.env.codingSession.isSome → s.newest request.env = false →
      (mapped = true ↔ s.queue.head? = some request.env)
  | .fail status => s.givesUpOn opts status = true → ∀ env ∈ s.queue.head?, s.newest env = false
  | .stop => ∀ env ∈ s.queue.head?, s.newest env = false
  | .answer | .wake => True

instance (opts : OrderedSenderOptions) (s : Relay) : ∀ a, Decidable (s.Kept opts a)
  | .enqueue _ => inferInstanceAs (Decidable (_ ∉ _))
  | .handle r _ => inferInstanceAs (Decidable (∀ request ∈ s.requests[r]?, _))
  | .fail _ => inferInstanceAs (Decidable (_ → _))
  | .stop => inferInstanceAs (Decidable (∀ env ∈ s.queue.head?, _))
  | .answer | .wake => inferInstanceAs (Decidable True)

/-! ## The queue and the transcript -/

structure Inv (s : Relay) : Prop where
  fresh : (s.enqueued.map (·.id)).Nodup
  gone : s.dropped ⊆ s.enqueued
  split : s.enqueued.filter (· ∉ s.dropped) = s.answered ++ s.queue
  /-- The first envelope of the queue may be stored before it is answered. -/
  stored : ∃ landed, (landed = [] ∨ landed = s.queue.take 1) ∧
    ∀ sid, s.transcript sid = (s.answered ++ landed).filter (·.codingSession = some sid)
  stops : s.stopped = true → s.queue = []

structure Delivering (s : Relay) : Prop where
  busy : s.queue = [] → s.stopped = true ∨ s.delivery = .idle
  sent : ∀ attempt r, s.delivery = .sending attempt r → ∃ request, s.requests[r]? = some request ∧
    ∀ env, s.queue.head? = some env → request.env = env ∧
      (request.recorded = true → env.codingSession = none ∨ s.newest env = true)

variable {opts : OrderedSenderOptions} {s : Relay}

variable {env : WorkerEnvelope}

theorem fresh_concat {envs : List WorkerEnvelope} (h : (envs.map (·.id)).Nodup)
    (hnew : env.id ∉ envs.map (·.id)) :
    ((envs ++ [env]).map (·.id)).Nodup := by
  rw [map_append, map_singleton, nodup_append]
  refine ⟨h, nodup_singleton _, fun a ha b hb hab => hnew ?_⟩
  rw [← mem_singleton.mp hb, ← hab]
  exact ha

theorem Inv.storedOnce (h : Inv s) : s.StoredOnce := by
  intro sid
  obtain ⟨landed, hl, htr⟩ := h.stored
  have hexp : s.expected sid =
      (s.answered ++ s.queue).filter (·.codingSession = some sid) := by
    rw [expected, h.split]
  have hpre : landed <+: s.queue := by
    rcases hl with rfl | rfl
    · exact nil_prefix
    · exact take_prefix 1 _
  have hstored : s.transcript sid <+: s.expected sid := by
    rw [htr, hexp]
    exact ((prefix_append_right_inj _).mpr hpre).filter _
  refine ⟨?_, hstored, fun hq => ?_⟩
  · have hsub : (s.transcript sid).Sublist s.enqueued :=
      hstored.sublist.trans (filter_sublist.trans filter_sublist)
    exact h.fresh.sublist (hsub.map _)
  · rw [htr, hexp]
    rcases hl with rfl | rfl
    · rw [hq]
    · rw [hq]
      rfl

theorem Inv.mem_enqueued (h : Inv s) (he : env ∈ s.answered ++ s.queue) : env ∈ s.enqueued := by
  rw [← h.split] at he
  exact mem_of_mem_filter he

theorem Inv.nodup (h : Inv s) : (s.answered ++ s.queue).Nodup := by
  rw [← h.split]
  exact (List.Nodup.of_map _ h.fresh).filter _

theorem Inv.eq_of_id (h : Inv s) {a b : WorkerEnvelope} (ha : a ∈ s.enqueued)
    (hb : b ∈ s.enqueued) (hid : a.id = b.id) : a = b :=
  inj_on_of_nodup_map h.fresh ha hb hid

theorem Inv.stored_cases (h : Inv s) (hq : s.queue.head? = some env) :
    (s.newest env = false ∧
      ∀ sid, s.transcript sid = s.answered.filter (·.codingSession = some sid)) ∨
    (s.newest env = true ∧
      ∀ sid, s.transcript sid = (s.answered ++ [env]).filter (·.codingSession = some sid)) := by
  obtain ⟨rest, hrest⟩ := List.head?_eq_some_iff.mp hq
  obtain ⟨landed, hl, htr⟩ := h.stored
  cases hses : env.codingSession with
  | none =>
    left
    refine ⟨by simp [newest, hses], fun sid => ?_⟩
    rw [htr]
    rcases hl with rfl | rfl
    · rw [append_nil]
    · simp [hrest, hses, filter_append]
  | some sid =>
    rcases hl with rfl | rfl
    · left
      simp only [append_nil] at htr
      refine ⟨?_, htr⟩
      -- an answered envelope with this id would be this one, which is still queued
      rw [newest, hses, Option.any_some, Bool.eq_false_iff]
      intro hlast
      obtain ⟨e, he, hid⟩ := Option.any_eq_true _ _ |>.mp hlast
      have hmem : e ∈ s.answered := by
        rw [htr] at he
        exact mem_of_mem_filter (List.mem_of_getLast? he)
      have henv : env ∈ s.queue := by rw [hrest]; exact mem_cons_self ..
      obtain rfl := h.eq_of_id (h.mem_enqueued (mem_append_left _ hmem))
        (h.mem_enqueued (mem_append_right _ henv)) (of_decide_eq_true hid)
      exact (nodup_append.mp h.nodup).2.2 e hmem e henv rfl
    · right
      have hone : s.queue.take 1 = [env] := by rw [hrest]; rfl
      rw [hone] at htr
      refine ⟨?_, htr⟩
      rw [newest, hses, Option.any_some, htr, filter_append]
      simp [hses]

/-! ## The steps -/

theorem Inv.post (h : Inv s) (attempt : Nat) : Inv (s.post attempt) ∧ Delivering (s.post attempt) := by
  unfold Relay.post
  split
  · exact ⟨{ h with }, ⟨fun _ => Or.inr rfl, fun _ _ hd => by cases hd⟩⟩
  next env rest hq =>
    refine ⟨{ h with }, ⟨fun hnil => ?_, fun a r hd => ?_⟩⟩
    · exact absurd (hq.symm.trans hnil) (by simp)
    · obtain ⟨-, rfl⟩ := Delivery.sending.inj hd
      refine ⟨{ env }, by simp, fun env' he => ⟨?_, fun hr => by cases hr⟩⟩
      have : s.queue.head? = some env' := he
      rw [hq] at this
      exact Option.some.inj this

theorem Inv.refuse (h : Inv s) (hnew : env.id ∉ s.enqueued.map (·.id)) :
    Inv { s with enqueued := s.enqueued ++ [env], dropped := s.dropped ++ [env] } := by
  have hmem : env ∉ s.enqueued := fun he => hnew (mem_map_of_mem he)
  refine { h with fresh := ?_, gone := ?_, split := ?_ }
  · exact fresh_concat h.fresh hnew
  · exact append_subset.mpr
      ⟨fun e he => mem_append_left _ (h.gone he), subset_append_right _ _⟩
  · rw [← h.split, filter_append]
    have hold : s.enqueued.filter (· ∉ s.dropped ++ [env]) = s.enqueued.filter (· ∉ s.dropped) := by
      apply filter_congr
      intro e he
      have : e ≠ env := fun heq => hmem (heq ▸ he)
      simp [this]
    rw [hold]
    simp

theorem Inv.enqueue (h : Inv s) (hd : Delivering s) (hk : s.Kept opts (.enqueue env)) :
    Inv (s.enqueue opts env) ∧ Delivering (s.enqueue opts env) := by
  have hnew : env ∉ s.enqueued := fun he => hk (mem_map_of_mem he)
  unfold Relay.enqueue
  dsimp only
  split
  · exact ⟨h.refuse hk, { hd with }⟩
  next hs =>
  split
  · exact ⟨h.refuse hk, { hd with }⟩
  have hqueued : Inv { s with enqueued := s.enqueued ++ [env], queue := s.queue ++ [env] } := by
    refine { h with fresh := fresh_concat h.fresh hk, gone := ?_, split := ?_, stored := ?_,
                    stops := fun hst => absurd hst hs }
    · exact fun e he => mem_append_left _ (h.gone he)
    · rw [filter_append, h.split, append_assoc]
      have : env ∉ s.dropped := fun he => hnew (h.gone he)
      simp [this]
    · obtain ⟨landed, hl, htr⟩ := h.stored
      cases hq : s.queue with
      | nil => exact ⟨[], Or.inl rfl, by
          rw [hq] at hl
          rcases hl with rfl | rfl <;> exact htr⟩
      | cons first rest => exact ⟨landed, by rw [hq] at hl; exact hl, htr⟩
  split
  · exact hqueued.post 0
  next hdel =>
    -- the queue had a first envelope, and it still has the same
    refine ⟨hqueued, fun hnil => absurd hnil (by simp), fun a r hsend => ?_⟩
    obtain ⟨request, hreq, henv⟩ := hd.sent a r hsend
    refine ⟨request, hreq, fun env' he => henv env' ?_⟩
    have hne : s.queue ≠ [] := by
      intro hnil
      rcases hd.busy hnil with hst | hidle
      · exact hs hst
      · exact hdel hidle
    obtain ⟨first, rest, hq⟩ := exists_cons_of_ne_nil hne
    simpa [hq] using he

theorem Inv.shift {answered dropped : List WorkerEnvelope}
    (h : Inv { s with queue := s.queue.tail, answered, dropped }) :
    Inv (shift { s with answered, dropped }) ∧ Delivering (shift { s with answered, dropped }) :=
  h.post 0

theorem take_one_append_tail (envs : List WorkerEnvelope) : envs.take 1 ++ envs.tail = envs := by
  cases envs <;> rfl

theorem Inv.shift_stopped (h : Inv s) (hs : s.stopped = true) :
    Inv s.shift ∧ Delivering s.shift := by
  have hq : s.queue.tail = s.queue := by
    rw [h.stops hs]
    rfl
  have hsame : { s with queue := s.queue.tail } = s := by rw [hq]
  unfold Relay.shift
  rw [hsame]
  exact h.post 0

theorem Inv.drop (h : Inv s) {gone rest : List WorkerEnvelope} (hq : s.queue = gone ++ rest)
    (hn : ∀ env, s.queue.head? = some env → s.newest env = false) :
    Inv { s with queue := rest, dropped := s.dropped ++ gone } := by
  have hd := h.nodup
  refine { h with gone := ?_, split := ?_, stored := ⟨[], Or.inl rfl, ?_⟩, stops := ?_ }
  · refine append_subset.mpr ⟨h.gone, fun e he => h.mem_enqueued ?_⟩
    rw [hq]
    exact mem_append_right _ (mem_append_left _ he)
  · have hfil : s.enqueued.filter (· ∉ s.dropped ++ gone) =
        (s.enqueued.filter (· ∉ s.dropped)).filter (· ∉ gone) := by
      rw [filter_filter]
      apply filter_congr
      intro e _
      simp [and_comm]
    rw [hfil, h.split, hq, filter_append, filter_append]
    rw [hq, nodup_append, nodup_append] at hd
    obtain ⟨-, ⟨-, -, hgr⟩, hag⟩ := hd
    have ha : s.answered.filter (· ∉ gone) = s.answered := filter_eq_self.mpr fun e he =>
      decide_eq_true fun hg => hag e he e (mem_append_left _ hg) rfl
    have hg : gone.filter (· ∉ gone) = [] := filter_eq_nil_iff.mpr fun e he => by simp [he]
    have hr : rest.filter (· ∉ gone) = rest := filter_eq_self.mpr fun e he =>
      decide_eq_true fun hg => hgr e hg e he rfl
    rw [ha, hg, hr, nil_append]
  · intro sid
    rw [append_nil]
    cases hhd : s.queue.head? with
    | some env =>
      rcases h.stored_cases hhd with ⟨-, htr⟩ | ⟨hnew, -⟩
      · exact htr sid
      · rw [hn env hhd] at hnew
        cases hnew
    | none =>
      obtain ⟨landed, hl, htr⟩ := h.stored
      rw [List.head?_eq_none_iff.mp hhd] at hl
      rcases hl with rfl | rfl <;> simpa using htr sid
  · intro hs
    have := h.stops hs
    rw [hq] at this
    exact (append_eq_nil_iff.mp this).2

theorem Inv.fail (h : Inv s) (hd : Delivering s) {status : Option Nat}
    (hk : s.Kept opts (.fail status)) : Inv (s.fail opts status) ∧ Delivering (s.fail opts status) := by
  unfold Relay.fail
  split
  next attempt r hdel =>
    split
    next hs => exact h.shift_stopped hs
    split
    next hgive =>
      have hnew := hk (by simpa only [givesUpOn, hdel] using hgive)
      exact Inv.shift (h.drop (take_one_append_tail s.queue).symm hnew)
    · refine ⟨{ h with }, ⟨fun hq => ?_, fun _ _ hsend => by cases hsend⟩⟩
      rcases hd.busy hq with hs | hidle
      · exact Or.inl hs
      · rw [hdel] at hidle
        cases hidle
  · exact ⟨h, hd⟩

theorem Inv.wake (h : Inv s) (hd : Delivering s) : Inv s.wake ∧ Delivering s.wake := by
  unfold Relay.wake
  split
  · split
    next hs => exact h.shift_stopped hs
    · exact h.post _
  · exact ⟨h, hd⟩

theorem Inv.stop (h : Inv s) (hd : Delivering s) (hk : s.Kept opts .stop) :
    Inv s.stop ∧ Delivering s.stop := by
  have hwhole : s.queue = s.queue ++ [] := (append_nil _).symm
  have hdrop := h.drop hwhole hk
  refine ⟨{ hdrop with stops := fun _ => rfl }, ⟨fun _ => Or.inl rfl, fun a r hsend => ?_⟩⟩
  obtain ⟨request, hreq, -⟩ := hd.sent a r hsend
  exact ⟨request, hreq, fun env he => by cases he⟩

theorem Inv.answer (h : Inv s) (hd : Delivering s) : Inv s.answer ∧ Delivering s.answer := by
  unfold Relay.answer
  split
  next attempt r hdel =>
    split
    next hrec =>
      obtain ⟨request, hreq, henv⟩ := hd.sent attempt r hdel
      rw [hreq, Option.any_some] at hrec
      apply Inv.shift
      refine { h with split := ?_, stored := ⟨[], Or.inl rfl, fun sid => ?_⟩, stops := fun hs => ?_ }
      · rw [h.split, append_assoc, take_one_append_tail]
      · rw [append_nil]
        cases hhd : s.queue.head? with
        | none =>
          obtain ⟨landed, hl, htr⟩ := h.stored
          rw [List.head?_eq_none_iff.mp hhd] at hl ⊢
          rcases hl with rfl | rfl <;> exact htr sid
        | some env =>
          obtain ⟨rest, hrest⟩ := List.head?_eq_some_iff.mp hhd
          rw [show s.queue.take 1 = [env] by rw [hrest]; rfl]
          rcases h.stored_cases hhd with ⟨hn, htr⟩ | ⟨-, htr⟩
          · -- not newest: then it is no coding event at all
            have hnone := ((henv env hhd).2 hrec).resolve_right (by rw [hn]; simp)
            rw [htr, filter_append]
            simp [hnone]
          · exact htr sid
      · rw [h.stops hs]
        rfl
    · exact ⟨h, hd⟩
  · exact ⟨h, hd⟩

/-- What a request leaves in the streams when it comes at its time. -/
theorem Inv.record (h : Inv s) {mapped : Bool}
    (hk : env.codingSession.isSome → s.newest env = false →
      (mapped = true ↔ s.queue.head? = some env)) :
    (Relay.record s.transcript env mapped = s.transcript ∧
      (s.queue.head? = some env → env.codingSession = none ∨ s.newest env = true)) ∨
    (s.queue.head? = some env ∧
      newest { s with transcript := Relay.record s.transcript env mapped } env = true ∧
      ∀ sid, Relay.record s.transcript env mapped sid =
        (s.answered ++ [env]).filter (·.codingSession = some sid)) := by
  unfold Relay.record
  cases hses : env.codingSession with
  | none => exact Or.inl ⟨rfl, fun _ => Or.inl rfl⟩
  | some sid =>
    have hnewest : s.newest env = (s.transcript sid).getLast?.any (·.id = env.id) := by
      rw [newest, hses, Option.any_some]
    cases hn : s.newest env with
    | true =>
      left
      refine ⟨?_, fun _ => Or.inr rfl⟩
      rw [hnewest] at hn
      have hsame : appendOnce (s.transcript sid) env = s.transcript sid := if_pos hn
      simp only [hsame, Function.update_eq_self, ite_self]
    | false =>
      have hiff := hk (by rw [hses]; rfl) hn
      cases hm : mapped with
      | false =>
        left
        refine ⟨rfl, fun hq => ?_⟩
        rw [hm] at hiff
        exact absurd (hiff.mpr hq) (by simp)
      | true =>
        right
        have hq := hiff.mp hm
        have htr := ((h.stored_cases hq).resolve_right (by rw [hn]; simp)).2
        rw [hnewest] at hn
        have happend : appendOnce (s.transcript sid) env = s.transcript sid ++ [env] :=
          if_neg (by rw [hn]; simp)
        simp only [if_true]
        refine ⟨hq, ?_, fun sid' => ?_⟩
        · simp [newest, hses, happend]
        · rcases eq_or_ne sid' sid with rfl | hne
          · rw [update_self, happend, htr, filter_append]
            simp [hses]
          · rw [update_of_ne hne, htr, filter_append]
            simp [hses, hne.symm]

theorem Inv.handle (h : Inv s) (hd : Delivering s) {r : Nat} {mapped : Bool}
    (hk : s.Kept opts (.handle r mapped)) : Inv (s.handle r mapped) ∧ Delivering (s.handle r mapped) := by
  unfold Relay.handle
  split
  next request hreq =>
    split
    · exact ⟨h, hd⟩
    next hrec =>
    -- whichever request is awaited, it is for the same envelope as before
    have hsent : ∀ a r', s.delivery = .sending a r' → ∃ request',
        (s.requests.set r { request with recorded := true })[r']? = some request' ∧
        ∀ env, s.queue.head? = some env → request'.env = env ∧
          (request'.recorded = true → env = request.env ∨ env.codingSession = none ∨
            s.newest env = true) := by
      intro a r' hsend
      obtain ⟨request', hreq', henv⟩ := hd.sent a r' hsend
      rcases eq_or_ne r r' with rfl | hne
      · obtain rfl := Option.some.inj (hreq.symm.trans hreq')
        have hlt := (List.getElem?_eq_some_iff.mp hreq).1
        exact ⟨{ request with recorded := true }, List.getElem?_set_self hlt,
          fun env he => ⟨(henv env he).1, fun _ => Or.inl (henv env he).1.symm⟩⟩
      · exact ⟨request', by rwa [List.getElem?_set_ne hne],
          fun env he => ⟨(henv env he).1, fun hr => Or.inr ((henv env he).2 hr)⟩⟩
    rcases h.record (hk request hreq (by simpa using hrec)) with ⟨hsame, hthere⟩ | ⟨hq, hnew, htr⟩
    · rw [hsame]
      refine ⟨{ h with }, ⟨hd.busy, fun a r' hsend => ?_⟩⟩
      obtain ⟨request', hreq', henv⟩ := hsent a r' hsend
      refine ⟨request', hreq', fun env he => ⟨(henv env he).1, fun hr => ?_⟩⟩
      rcases (henv env he).2 hr with rfl | hdone
      · exact hthere he
      · exact hdone
    · obtain ⟨rest, hrest⟩ := List.head?_eq_some_iff.mp hq
      refine ⟨{ h with stored := ⟨[request.env], Or.inr (by rw [hrest]; rfl), htr⟩ },
        ⟨hd.busy, fun a r' hsend => ?_⟩⟩
      obtain ⟨request', hreq', henv⟩ := hsent a r' hsend
      refine ⟨request', hreq', fun env he => ⟨(henv env he).1, fun _ => Or.inr ?_⟩⟩
      obtain rfl := Option.some.inj (hq.symm.trans he)
      exact hnew
  · exact ⟨h, hd⟩

theorem Inv.step (h : Inv s) (hd : Delivering s) {a : Action} (hk : s.Kept opts a) :
    Inv (s.step opts a) ∧ Delivering (s.step opts a) := by
  cases a with
  | enqueue env => exact h.enqueue hd hk
  | handle r mapped => exact h.handle hd hk
  | answer => exact h.answer hd
  | fail status => exact h.fail hd hk
  | wake => exact h.wake hd
  | stop => exact h.stop hd hk

theorem inv_init : Inv {} ∧ Delivering {} :=
  ⟨⟨nodup_nil, nil_subset _, rfl, ⟨[], Or.inl rfl, fun _ => rfl⟩, fun _ => rfl⟩,
    ⟨fun _ => Or.inr rfl, fun _ _ hd => by cases hd⟩⟩

/-- While every request is recorded at its time and nothing is given up on, the transcripts are what
was enqueued less what was dropped. -/
theorem transcript_stored_once (opts : OrderedSenderOptions) (as : List Action)
    (h : Steps.Along (step opts) (Kept opts) {} as) :
    Steps.Along (step opts) (fun s a => (s.step opts a).StoredOnce) {} as :=
  Steps.along_of_invariant (fun s => Inv s ∧ Delivering s) (fun _ _ hs hk => hs.1.step hs.2 hk)
    (fun _ _ hs hk => (hs.1.step hs.2 hk).1.storedOnce) inv_init h

/-- Lost answers, a late request and a refused envelope. -/
def retriedRun : List Action :=
  [.enqueue { id := "a", sessionId := "cs" }, .enqueue { id := "b", sessionId := "cs" },
    .handle 0 true, .fail none, .wake, .handle 1 true, .answer,
    .fail (some 503), .wake, .handle 3 true, .handle 2 true, .answer,
    .enqueue { id := "c", sessionId := "cs" }, .fail (some 400)]

theorem retried_run_stored_once :
    Steps.Along (step {}) (fun s a => (s.step {} a).StoredOnce) {} retriedRun ∧
      ((Steps.run (step {}) {} retriedRun).transcript "cs").map (·.id) = ["a", "b"] ∧
      (Steps.run (step {}) {} retriedRun).dropped.map (·.id) = ["c"] :=
  ⟨transcript_stored_once {} retriedRun (by decide), by decide, by decide⟩

/-- The first request for `a` is held up, its retry is recorded, and so is `b`. -/
def lateRun : List Action :=
  [.enqueue { id := "a", sessionId := "cs" }, .enqueue { id := "b", sessionId := "cs" },
    .fail none, .wake, .handle 1 true, .answer, .handle 2 true, .answer]

def lostAnswerRun : List Action :=
  .enqueue { id := "a", sessionId := "cs" } ::
    (List.replicate 12 [.fail none, .wake]).flatten ++ [.handle 12 true]

theorem late_request_stored_again :
    ¬ Steps.Along (step {}) (fun s a => (s.step {} a).StoredOnce) {} (lateRun ++ [.handle 0 true]) ∧
      ¬ Steps.Along (step {}) (fun s a => (s.step {} a).StoredOnce) {}
        (lostAnswerRun ++ [.fail none]) := by
  constructor
  · intro h
    have hlast := Steps.along_iff.mp h lateRun (.handle 0 true) [] rfl "cs"
    exact absurd hlast.1 (by decide)
  · intro h
    have hlast := Steps.along_iff.mp h lostAnswerRun (.fail none) [] rfl "cs"
    exact absurd (hlast.2.2 (by decide)) (by decide)

end Relay

end Almyty.Runner

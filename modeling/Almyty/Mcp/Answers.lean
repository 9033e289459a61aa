import Almyty.Lib.Steps
import Almyty.Mcp.StdioMux

/-!
# Every request is answered once: `McpStdioMux`

A request is in flight while the map has it. `answered_once_iff` says of any run when every other
request of an open session has had exactly one answer, under the id the client used: exactly when
three things never happen. The downstream is lost while requests of open sessions are in flight:
each of these sessions gets one error under the id null. A request that is in flight cannot be
written: the error is under its proxy id. The proxy ids run out.
-/

namespace Almyty.Mcp

open Almyty.Lib List Option

def World.answers (w : World) (p : Int) : List Sent := w.sent.filter (·.answers = some p)

def IsAnswer (heard : List Json) (p : Int) (id frame : Json) : Prop :=
  (∃ line, .obj line ∈ heard ∧ lineId line = some p ∧ frame = withId line id) ∨
    ∃ code message, frame = errorFrame id code message

def AnsweredOnce (w : World) (request : Request) : Prop :=
  match request.proxyId with
  | none => False
  | some p =>
    if (w.idMap.lookup p).isSome then w.answers p = []
    else ∃ frame, w.answers p = [⟨request.sessionId, frame, some p⟩] ∧
      IsAnswer w.heard p request.id frame

def Kept (w : World) : Prop :=
  ∀ request ∈ w.requests, request.sessionId ∈ w.sessions → AnsweredOnce w request

def careful (w : World) : Action → Bool
  | .clientFrame sessionId (some frame) _ =>
    (requestId frame).isNone || w.proxyIdSeq < maxSafeInteger || sessionId ∉ w.sessions
  | .downstreamGone _ => w.idMap.all fun entry => entry.2.sessionId ∉ w.sessions
  | .catchWrite =>
    match w.rejected.head?.bind (·.handler) with
    | none => true
    | some (p, _) => (w.idMap.lookup p).all fun mapping =>
      mapping.sessionId ∉ w.sessions || mapping.originalId = .num p
  | _ => true

structure Owned (w : World) : Prop where
  keys : (Assoc.keys w.idMap).Nodup
  mapped : ∀ p mapping, w.idMap.lookup p = some mapping →
    ⟨some p, mapping.sessionId, mapping.originalId⟩ ∈ w.requests
  given : ∀ request ∈ w.requests, ∀ p, request.proxyId = some p → p ≤ w.proxyIdSeq
  unique : ∀ request ∈ w.requests, ∀ request' ∈ w.requests, ∀ p, request.proxyId = some p →
    request'.proxyId = some p → request = request'
  joined : ∀ request ∈ w.requests, request.sessionId ∈ w.joined
  sessions : ∀ s ∈ w.sessions, s ∈ w.joined
  handlers : ∀ write ∈ w.writeChain ++ w.rejected, ∀ p s, write.handler = some (p, s) →
    ∃ id, ⟨some p, s, id⟩ ∈ w.requests
  told : ∀ e ∈ w.sent, ∀ p, e.answers = some p → p ≤ w.proxyIdSeq

variable {w w' : World} {p : Int} {s : SessionId} {mapping : IdMapping} {request : Request}
  {frame : Json} {extra : List Sent}

theorem AnsweredOnce.mono (h : AnsweredOnce w request)
    (hflight : ∀ p, request.proxyId = some p →
      (w'.idMap.lookup p).isSome = (w.idMap.lookup p).isSome)
    (hanswers : ∀ p, request.proxyId = some p → w'.answers p = w.answers p)
    (hheard : ∀ line ∈ w.heard, line ∈ w'.heard) : AnsweredOnce w' request := by
  unfold AnsweredOnce at h ⊢
  cases hp : request.proxyId with
  | none =>
    rw [hp] at h
    exact h
  | some p =>
    rw [hp] at h
    dsimp only at h ⊢
    rw [hflight p hp, hanswers p hp]
    split at h
    next hin =>
      rw [if_pos hin]
      exact h
    next hout =>
      rw [if_neg hout]
      obtain ⟨frame, hframe, hanswer⟩ := h
      refine ⟨frame, hframe, hanswer.imp_left ?_⟩
      intro ⟨line, hline, hid⟩
      exact ⟨line, hheard _ hline, hid⟩

theorem answeredOnce_iff_of_over {id : Json} (hp : w.idMap.lookup p = none) :
    AnsweredOnce w ⟨some p, s, id⟩ ↔
      ∃ frame, w.answers p = [⟨s, frame, some p⟩] ∧ IsAnswer w.heard p id frame := by
  simp only [AnsweredOnce, hp, isSome_none, Bool.false_eq_true, if_false]

theorem answeredOnce_iff_of_inFlight {id : Json} (hp : w.idMap.lookup p = some mapping) :
    AnsweredOnce w ⟨some p, s, id⟩ ↔ w.answers p = [] := by
  simp only [AnsweredOnce, hp, isSome_some, if_true]

/-! ## What is sent -/

def World.said (w : World) (extra : List Sent) : World := { w with sent := w.sent ++ extra }

theorem send_eq (w : World) (s : SessionId) (frame : Json) (answers : Option Int) :
    w.send s frame answers = w.said (if s ∈ w.sessions then [⟨s, frame, answers⟩] else []) := by
  unfold World.send World.said
  split
  · rfl
  · rw [append_nil]

theorem said_said (w : World) (extra extra' : List Sent) :
    (w.said extra).said extra' = w.said (extra ++ extra') := by
  unfold World.said
  rw [append_assoc]

theorem foldl_send (sessions : List SessionId) (frame : Json) (w : World) :
    ∃ extra : List Sent, (∀ e ∈ extra, e.answers = none) ∧
      sessions.foldl (fun w s => w.send s frame none) w = w.said extra := by
  induction sessions generalizing w with
  | nil =>
    refine ⟨[], fun e he => absurd he not_mem_nil, ?_⟩
    rw [World.said, append_nil]
    rfl
  | cons s sessions ih =>
    obtain ⟨extra, hextra, heq⟩ := ih (w.send s frame none)
    rw [send_eq] at heq
    refine ⟨(if s ∈ w.sessions then [⟨s, frame, none⟩] else []) ++ extra, fun e he => ?_, ?_⟩
    · rcases mem_append.mp he with he | he
      · split at he
        · rw [mem_singleton.mp he]
        · cases he
      · exact hextra e he
    · rw [foldl_cons, send_eq, heq, said_said]

theorem answers_append (w : World) (extra : List Sent) (p : Int) :
    (w.said extra).answers p =
      w.answers p ++ extra.filter (·.answers = some p) :=
  filter_append ..

theorem Owned.said (h : Owned w)
    (hextra : ∀ e ∈ extra, ∀ p, e.answers = some p → p ≤ w.proxyIdSeq) :
    Owned (w.said extra) :=
  { h with
    told := fun e he => by
      rcases mem_append.mp he with he | he
      · exact h.told e he
      · exact hextra e he }

theorem Owned.said_none (h : Owned w) (hextra : ∀ e ∈ extra, e.answers = none) :
    Owned (w.said extra) :=
  h.said fun e he p hp => by
    rw [hextra e he] at hp
    cases hp

theorem answers_said_none (hextra : ∀ e ∈ extra, e.answers = none) (p : Int) :
    (w.said extra).answers p = w.answers p := by
  rw [answers_append, filter_eq_nil_iff.mpr, append_nil]
  intro e he
  simp [hextra e he]

theorem Kept.said_none (h : Kept w) (hextra : ∀ e ∈ extra, e.answers = none) :
    Kept (w.said extra) := fun request hrequest hs =>
  (h request hrequest hs).mono (fun _ _ => rfl) (fun p _ => answers_said_none hextra p)
    fun _ hline => hline

theorem Owned.heard (h : Owned w) (line : Json) : Owned { w with heard := w.heard ++ [line] } :=
  { h with }

theorem Kept.heard (h : Kept w) (line : Json) : Kept { w with heard := w.heard ++ [line] } :=
  fun request hrequest hs =>
    (h request hrequest hs).mono (fun _ _ => rfl) (fun _ _ => rfl) fun _ hline =>
      mem_append_left _ hline

/-! ## The end of a request -/

theorem Owned.free (h : Owned w) (p : Int) : Owned (w.free p) :=
  { h with
    keys := Assoc.filter_keys_nodup h.keys _
    mapped := fun q mapping hq => by
      rw [World.free, Assoc.lookup_erase] at hq
      split at hq
      · cases hq
      · exact h.mapped q mapping hq }

theorem Owned.ended (h : Owned w) (hp : w.idMap.lookup p = some mapping) (s : SessionId)
    (frame : Json) : Owned ((w.free p).send s frame (some p)) := by
  rw [send_eq]
  refine (h.free p).said fun e he q hq => ?_
  split at he
  · rw [mem_singleton.mp he] at hq
    obtain rfl := some.inj hq
    exact h.given _ (h.mapped _ _ hp) _ rfl
  · cases he

/-- A request taken off the map with a frame sent about it is right when the frame is its answer or
nobody reads it. -/
theorem kept_ended_iff (h : Owned w) (hkept : Kept w) (hp : w.idMap.lookup p = some mapping) :
    Kept ((w.free p).send mapping.sessionId frame (some p)) ↔
      (mapping.sessionId ∈ w.sessions → IsAnswer w.heard p mapping.originalId frame) := by
  have hrequest := h.mapped p mapping hp
  have hfreed (extra : List Sent) : ((w.free p).said extra).idMap.lookup p = none := by
    show (Assoc.erase w.idMap p).lookup p = none
    rw [Assoc.lookup_erase, if_pos rfl]
  rw [send_eq]
  have hsent (hs : mapping.sessionId ∈ w.sessions) :
      ((w.free p).said (if mapping.sessionId ∈ (w.free p).sessions then
        [⟨mapping.sessionId, frame, some p⟩] else [])).answers p =
          [⟨mapping.sessionId, frame, some p⟩] := by
    rw [answers_append, show (w.free p).answers p = [] from
        (answeredOnce_iff_of_inFlight hp).mp (hkept _ hrequest hs),
      show (w.free p).sessions = w.sessions from rfl, if_pos hs]
    simp
  constructor
  · intro hkept' hs
    obtain ⟨answer, hanswer, his⟩ := (answeredOnce_iff_of_over (hfreed _)).mp (hkept' _ hrequest hs)
    rw [hsent hs] at hanswer
    injection hanswer with hanswer
    injection hanswer with _ hframe
    rw [hframe]
    exact his
  · intro his request hrequest' hs
    have hanswered := hkept request hrequest' hs
    by_cases hrp : request.proxyId = some p
    · obtain rfl := h.unique _ hrequest' _ hrequest p hrp rfl
      exact (answeredOnce_iff_of_over (hfreed _)).mpr ⟨frame, hsent hs, his hs⟩
    · -- another request
      have hne {q : Int} (hq : request.proxyId = some q) : q ≠ p := by
        intro heq
        rw [heq] at hq
        exact hrp hq
      refine hanswered.mono (fun q hq => ?_) (fun q hq => ?_) fun _ hline => hline
      · show ((Assoc.erase w.idMap p).lookup q).isSome = _
        rw [Assoc.lookup_erase, if_neg (hne hq)]
      · rw [answers_append, filter_eq_nil_iff.mpr, append_nil]
        · rfl
        · intro e he
          split at he
          · rw [mem_singleton.mp he]
            simpa using Ne.symm (hne hq)
          · cases he

theorem sweep_foldl (cutoff : Int) (entries : List (Int × IdMapping))
    (hkeys : (Assoc.keys entries).Nodup) (h : Owned w) (hkept : Kept w)
    (hentries : ∀ e ∈ entries, w.idMap.lookup e.1 = some e.2) :
    Owned (entries.foldl (World.sweepEntry cutoff) w) ∧
      Kept (entries.foldl (World.sweepEntry cutoff) w) := by
  induction entries generalizing w with
  | nil => exact ⟨h, hkept⟩
  | cons e entries ih =>
    obtain ⟨p, mapping⟩ := e
    have hp := hentries _ mem_cons_self
    rw [Assoc.keys_cons, nodup_cons] at hkeys
    rw [foldl_cons]
    by_cases hold : mapping.sentAt ≤ cutoff
    · rw [show World.sweepEntry cutoff w (p, mapping) = _ from if_pos hold]
      refine ih hkeys.2 (h.ended hp _ _)
        ((kept_ended_iff h hkept hp).mpr fun _ => .inr ⟨_, _, rfl⟩) fun e he => ?_
      -- the entries that are left are of other requests
      have hne : e.1 ≠ p := fun heq => hkeys.1 (mem_map.mpr ⟨e, he, heq⟩)
      rw [World.errorSession, send_eq]
      show (Assoc.erase w.idMap p).lookup e.1 = _
      rw [Assoc.lookup_erase, if_neg hne]
      exact hentries e (mem_cons_of_mem _ he)
    · rw [show World.sweepEntry cutoff w (p, mapping) = w from if_neg hold]
      exact ih hkeys.2 h hkept fun e he => hentries e (mem_cons_of_mem _ he)

/-! ## One step -/

theorem mem_of_rejected {other write : Write} {rest rejected : List Write}
    (h : other ∈ rest ++ (rejected ++ [write])) : other ∈ (write :: rest) ++ rejected := by
  simp only [mem_append, mem_cons, not_mem_nil, or_false] at h ⊢
  rcases h with hrest | hrejected | hwrite
  · exact .inl (.inr hrest)
  · exact .inr hrejected
  · exact .inl (.inl hwrite)

theorem Owned.queued (h : Owned w) (downstream writing : Option DownstreamId)
    (writeChain rejected : List Write) (written : List (DownstreamId × Json))
    (hwrites : ∀ write ∈ writeChain ++ rejected, write.handler = none ∨
      write ∈ w.writeChain ++ w.rejected) :
    Owned { w with
      downstream := downstream
      writing := writing
      writeChain := writeChain
      rejected := rejected
      written := written } :=
  { h with
    handlers := fun write hwrite p s hhandler => by
      rcases hwrites write hwrite with hnone | hmem
      · rw [hnone] at hhandler
        cases hhandler
      · exact h.handlers write hmem p s hhandler }

theorem Owned.startWrite (h : Owned w) : Owned w.startWrite := by
  unfold World.startWrite
  split
  next write rest hwriting hchain =>
    split
    · refine h.queued _ _ _ _ _ fun other hother => .inr ?_
      rw [hchain]
      exact mem_of_rejected hother
    · exact h.queued _ _ _ _ _ fun other hother => .inr hother
  · exact h

theorem Owned.endWrite (h : Owned w) (ok : Bool) : Owned (w.endWrite ok) := by
  unfold World.endWrite
  split
  next downstream write rest hwriting hchain =>
    dsimp only
    split
    · refine h.queued _ _ _ _ _ fun other hother => .inr ?_
      rw [hchain]
      exact mem_cons_of_mem _ hother
    · refine h.queued _ _ _ _ _ fun other hother => .inr ?_
      rw [hchain]
      exact mem_of_rejected hother
  · exact h

theorem kept_startWrite (hkept : Kept w) : Kept w.startWrite := by
  unfold World.startWrite
  repeat' split
  all_goals exact hkept

theorem kept_endWrite (hkept : Kept w) (ok : Bool) : Kept (w.endWrite ok) := by
  unfold World.endWrite
  dsimp only
  repeat' split
  all_goals exact hkept

theorem Owned.addSession (h : Owned w) (s : SessionId) : Owned (w.addSession s) := by
  unfold World.addSession
  split
  · exact h
  · exact { h with
      joined := fun request hrequest => mem_append_left _ (h.joined request hrequest)
      sessions := fun s' hs' => (mem_append.mp hs').elim
        (fun hmem => mem_append_left _ (h.sessions s' hmem))
        fun hmem => mem_append_right _ hmem }

theorem kept_addSession (h : Owned w) (hkept : Kept w) (s : SessionId) : Kept (w.addSession s) := by
  unfold World.addSession
  split
  · exact hkept
  next hnew =>
    intro request hrequest hs
    rcases mem_append.mp hs with hs | hs
    · exact hkept request hrequest hs
    · -- nobody has asked for the new session
      have hjoined := h.joined request hrequest
      rw [mem_singleton.mp hs] at hjoined
      exact absurd hjoined hnew

theorem Owned.teardownSession (h : Owned w) (s : SessionId) : Owned (w.teardownSession s) :=
  { h with
    keys := Assoc.filter_keys_nodup h.keys _
    mapped := fun p mapping hp => by
      rw [World.teardownSession, Assoc.lookup_filter h.keys] at hp
      exact h.mapped p mapping (filter_eq_some_iff.mp hp).1
    sessions := fun s' hs' => h.sessions s' (mem_filter.mp hs').1 }

theorem kept_teardownSession (h : Owned w) (hkept : Kept w) (s : SessionId) :
    Kept (w.teardownSession s) := by
  intro request hrequest hs
  obtain ⟨hopen, hne⟩ := mem_filter.mp hs
  refine (hkept request hrequest hopen).mono (fun p hp => ?_) (fun _ _ => rfl) fun _ hline => hline
  show ((w.idMap.filter _).lookup p).isSome = _
  rw [Assoc.lookup_filter h.keys]
  cases hmapping : w.idMap.lookup p with
  | none => rfl
  | some mapping =>
    -- the request is of a session that stays
    have heq := h.unique _ hrequest _ (h.mapped p mapping hmapping) p hp rfl
    rw [heq] at hne
    rw [filter_some, if_pos (by simpa using hne)]

theorem Owned.onDownstreamGone (h : Owned w) (reason : String) :
    Owned (w.onDownstreamGone reason) := by
  obtain ⟨extra, hextra, heq⟩ := foldl_send (w.idMap.map (·.2.sessionId)).eraseDups
    (errorFrame .null (-32011) ("downstream unavailable: " ++ reason))
    { w with downstream := none, idMap := [] }
  rw [show w.onDownstreamGone reason = _ from heq]
  refine Owned.said_none ?_ hextra
  exact { h with
    keys := nodup_nil
    mapped := fun p mapping hp => (nomatch hp) }

theorem kept_onDownstreamGone_iff (h : Owned w) (hkept : Kept w) (reason : String) :
    Kept (w.onDownstreamGone reason) ↔ ∀ entry ∈ w.idMap, entry.2.sessionId ∉ w.sessions := by
  obtain ⟨extra, hextra, heq⟩ := foldl_send (w.idMap.map (·.2.sessionId)).eraseDups
    (errorFrame .null (-32011) ("downstream unavailable: " ++ reason))
    { w with downstream := none, idMap := [] }
  rw [show w.onDownstreamGone reason = _ from heq]
  constructor
  · intro hkept' entry hentry hs
    have hp := Assoc.lookup_of_mem h.keys hentry
    have hrequest := h.mapped _ _ hp
    -- it is over, and nothing was sent about it
    obtain ⟨frame, hframe, -⟩ := (answeredOnce_iff_of_over rfl).mp (hkept' _ hrequest hs)
    have hnone : w.answers entry.1 = [] :=
      (answeredOnce_iff_of_inFlight hp).mp (hkept _ hrequest hs)
    rw [answers_said_none hextra] at hframe
    exact absurd (hnone.symm.trans hframe) (cons_ne_nil _ _).symm
  · intro hclosed
    refine Kept.said_none (fun request hrequest hs => ?_) hextra
    refine (hkept request hrequest hs).mono (fun p hp => ?_) (fun _ _ => rfl) fun _ hline => hline
    cases hmapping : w.idMap.lookup p with
    | none => rfl
    | some mapping =>
      have heq := h.unique _ hrequest _ (h.mapped p mapping hmapping) p hp rfl
      rw [heq] at hs
      exact absurd hs (hclosed _ (Assoc.mem_of_lookup hmapping))

theorem Owned.enqueueFrame (h : Owned w) (frame : Json) : Owned (w.enqueueFrame ⟨frame, none⟩) :=
  h.queued _ _ _ _ _ fun write hwrite => by
    simp only [mem_append, mem_singleton] at hwrite ⊢
    rcases hwrite with (hchain | rfl) | hrejected
    · exact .inr (.inl hchain)
    · exact .inl rfl
    · exact .inr (.inr hrejected)

theorem Owned.onRequest (h : Owned w) (hs : s ∈ w.joined) (frame : Fields) (id : Json)
    (now : Int) : Owned (w.onRequest s frame id now) := by
  unfold World.onRequest
  split
  · -- the refused request has no proxy id
    exact { h with
      mapped := fun p mapping hp => mem_append_left _ (h.mapped p mapping hp)
      given := fun request hrequest p hp => by
        rcases mem_append.mp hrequest with hmem | hmem
        · exact h.given request hmem p hp
        · rw [mem_singleton.mp hmem] at hp
          cases hp
      unique := fun request hrequest request' hrequest' p hp hp' => by
        rcases mem_append.mp hrequest with hmem | hmem
        · rcases mem_append.mp hrequest' with hmem' | hmem'
          · exact h.unique request hmem request' hmem' p hp hp'
          · rw [mem_singleton.mp hmem'] at hp'
            cases hp'
        · rw [mem_singleton.mp hmem] at hp
          cases hp
      joined := fun request hrequest => by
        rcases mem_append.mp hrequest with hmem | hmem
        · exact h.joined request hmem
        · rw [mem_singleton.mp hmem]
          exact hs
      handlers := fun write hwrite p s' hhandler => by
        obtain ⟨id', hid'⟩ := h.handlers write hwrite p s' hhandler
        exact ⟨id', mem_append_left _ hid'⟩ }
  · -- the new proxy id is above all others
    have hle (p : Int) (hp : p ≤ w.proxyIdSeq) : p ≤ w.proxyIdSeq + 1 := by omega
    have hnew {request : Request} (hmem : request ∈ w.requests)
        (hp : request.proxyId = some (w.proxyIdSeq + 1)) : False := by
      have := h.given request hmem _ hp
      omega
    exact
      { keys := Assoc.put_keys_nodup h.keys _ _
        mapped := fun p mapping hp => by
          replace hp := (Assoc.lookup_put w.idMap (w.proxyIdSeq + 1) ⟨s, id, now⟩ p).symm.trans hp
          split at hp
          next heq =>
            obtain rfl := some.inj hp
            rw [heq]
            exact mem_append_right _ (mem_singleton_self _)
          next => exact mem_append_left _ (h.mapped p mapping hp)
        given := fun request hrequest p hp => by
          rcases mem_append.mp hrequest with hmem | hmem
          · exact hle p (h.given request hmem p hp)
          · rw [mem_singleton.mp hmem] at hp
            obtain rfl := some.inj hp
            exact Int.le_refl _
        unique := fun request hrequest request' hrequest' p hp hp' => by
          rcases mem_append.mp hrequest with hmem | hmem
          · rcases mem_append.mp hrequest' with hmem' | hmem'
            · exact h.unique request hmem request' hmem' p hp hp'
            · rw [mem_singleton.mp hmem'] at hp'
              obtain rfl := some.inj hp'
              exact (hnew hmem hp).elim
          · rcases mem_append.mp hrequest' with hmem' | hmem'
            · rw [mem_singleton.mp hmem] at hp
              obtain rfl := some.inj hp
              exact (hnew hmem' hp').elim
            · rw [mem_singleton.mp hmem, mem_singleton.mp hmem']
        joined := fun request hrequest => by
          rcases mem_append.mp hrequest with hmem | hmem
          · exact h.joined request hmem
          · rw [mem_singleton.mp hmem]
            exact hs
        sessions := h.sessions
        handlers := fun write hwrite p s' hhandler => by
          simp only [World.enqueueFrame, mem_append, mem_singleton] at hwrite
          rcases hwrite with (hchain | rfl) | hrejected
          · obtain ⟨id', hid'⟩ := h.handlers write (mem_append_left _ hchain) p s' hhandler
            exact ⟨id', mem_append_left _ hid'⟩
          · obtain ⟨rfl, rfl⟩ := Prod.mk.inj (some.inj hhandler)
            exact ⟨id, mem_append_right _ (mem_singleton_self _)⟩
          · obtain ⟨id', hid'⟩ := h.handlers write (mem_append_right _ hrejected) p s' hhandler
            exact ⟨id', mem_append_left _ hid'⟩
        told := fun e he p hp => hle p (h.told e he p hp) }

theorem kept_onRequest_iff (h : Owned w) (hkept : Kept w) (s : SessionId) (frame : Fields)
    (id : Json) (now : Int) :
    Kept (w.onRequest s frame id now) ↔ w.proxyIdSeq < maxSafeInteger ∨ s ∉ w.sessions := by
  unfold World.onRequest
  split
  next hfull =>
    constructor
    · intro hkept'
      refine .inr fun hs => ?_
      exact hkept' ⟨none, s, id⟩ (mem_append_right _ (mem_singleton_self _)) hs
    · intro hroom request hrequest hs
      rcases mem_append.mp hrequest with hmem | hmem
      · exact (hkept request hmem hs).mono (fun _ _ => rfl) (fun _ _ => rfl) fun _ hline => hline
      · rw [mem_singleton.mp hmem] at hs
        rcases hroom with hroom | hclosed
        · omega
        · exact absurd hs hclosed
  next hroom =>
    refine iff_of_true (fun request hrequest hs => ?_) (.inl (by omega))
    rcases mem_append.mp hrequest with hmem | hmem
    · refine (hkept request hmem hs).mono (fun p hp => ?_) (fun _ _ => rfl) fun _ hline => hline
      have hle := h.given request hmem p hp
      show ((Assoc.put w.idMap (w.proxyIdSeq + 1) _).lookup p).isSome = _
      rw [Assoc.lookup_put, if_neg (by omega)]
    · rw [mem_singleton.mp hmem]
      have hp : (Assoc.put w.idMap (w.proxyIdSeq + 1) ⟨s, id, now⟩).lookup (w.proxyIdSeq + 1) =
          some ⟨s, id, now⟩ := by rw [Assoc.lookup_put, if_pos rfl]
      refine (answeredOnce_iff_of_inFlight hp).mpr (filter_eq_nil_iff.mpr fun e he heq => ?_)
      -- nothing was sent yet about the new proxy id
      have htold := h.told e he (w.proxyIdSeq + 1) (of_decide_eq_true heq)
      omega

theorem Owned.onClientFrame (h : Owned w) (hs : s ∈ w.joined) (raw : Option Json) (now : Int) :
    Owned (w.onClientFrame s raw now) := by
  unfold World.onClientFrame
  split
  · rw [World.errorSession, send_eq]
    refine h.said_none fun e he => ?_
    split at he
    · rw [mem_singleton.mp he]
    · cases he
  · exact h
  · split
    · exact h.enqueueFrame _
    · exact h.onRequest hs _ _ _
  · exact h.enqueueFrame _

theorem kept_onClientFrame_iff (h : Owned w) (hkept : Kept w) (s : SessionId) (raw : Option Json)
    (now : Int) :
    Kept (w.onClientFrame s raw now) ↔ careful w (.clientFrame s raw now) = true := by
  unfold World.onClientFrame
  split
  · refine iff_of_true ?_ rfl
    rw [World.errorSession, send_eq]
    refine hkept.said_none fun e he => ?_
    split at he
    · rw [mem_singleton.mp he]
    · cases he
  · exact iff_of_true hkept rfl
  · split
    next hid => exact iff_of_true hkept (by simp [careful, hid])
    next id hid =>
      rw [kept_onRequest_iff h hkept]
      simp [careful, hid]
  next hnull hobj =>
    refine iff_of_true hkept ?_
    show ((requestId _).isNone || _ || _) = true
    unfold requestId
    split
    next fields => exact absurd rfl (hobj fields)
    · rfl

theorem Owned.handler_session (h : Owned w) {write : Write} (hwrite : write ∈ w.rejected)
    (hhandler : write.handler = some (p, s)) (hp : w.idMap.lookup p = some mapping) :
    s = mapping.sessionId := by
  obtain ⟨id, hrequest⟩ := h.handlers write (mem_append_right _ hwrite) p s hhandler
  have heq := h.unique _ hrequest _ (h.mapped p mapping hp) p rfl rfl
  exact congrArg Request.sessionId heq

theorem Owned.rejected_tail (h : Owned w) {write : Write} {rest : List Write}
    (hrejected : w.rejected = write :: rest) : Owned { w with rejected := rest } :=
  h.queued _ _ _ _ _ fun other hother => .inr (by
    rw [hrejected]
    exact (mem_append.mp hother).elim (fun hmem => mem_append_left _ hmem)
      fun hmem => mem_append_right _ (mem_cons_of_mem _ hmem))

theorem Owned.catchWrite (h : Owned w) : Owned w.catchWrite := by
  unfold World.catchWrite
  split
  · exact h
  next write rest hrejected =>
    have hrest := h.rejected_tail hrejected
    dsimp only
    split
    · exact hrest
    next p s hhandler =>
      split
      next hin =>
        obtain ⟨mapping, hp⟩ := isSome_iff_exists.mp hin
        exact hrest.ended hp _ _
      · exact hrest

theorem isAnswer_errorFrame_iff {heard : List Json} {id id' : Json} {code : Int}
    {message : String} : IsAnswer heard p id (errorFrame id' code message) ↔ id = id' := by
  constructor
  · intro h
    rcases h with ⟨line, -, -, heq⟩ | ⟨code', message', heq⟩
    · exact id_eq_of_withId_eq_errorFrame heq.symm
    · exact (errorFrame_inj_left heq).symm
  · intro heq
    rw [heq]
    exact .inr ⟨code, message, rfl⟩

theorem kept_catchWrite_iff (h : Owned w) (hkept : Kept w) :
    Kept w.catchWrite ↔ careful w .catchWrite = true := by
  unfold World.catchWrite careful
  cases hrejected : w.rejected with
  | nil => exact iff_of_true hkept rfl
  | cons write rest =>
    have hrest := h.rejected_tail hrejected
    have hkeptRest : Kept { w with rejected := rest } := hkept
    simp only [List.head?_cons, bind_some]
    cases hhandler : write.handler with
    | none => exact iff_of_true hkept rfl
    | some handler =>
      obtain ⟨p, s⟩ := handler
      dsimp only
      cases hp : w.idMap.lookup p with
      | none => exact iff_of_true hkept rfl
      | some mapping =>
        have hwrite : write ∈ w.rejected := by
          rw [hrejected]
          exact mem_cons_self
        obtain rfl := h.handler_session hwrite hhandler hp
        rw [if_pos isSome_some, World.errorSession, kept_ended_iff hrest hkeptRest hp,
          isAnswer_errorFrame_iff]
        simp only [all_some, Bool.or_eq_true, decide_eq_true_eq]
        exact Decidable.imp_iff_not_or

theorem Owned.onDownstreamLine (h : Owned w) (raw : Option Json) :
    Owned (w.onDownstreamLine raw) := by
  unfold World.onDownstreamLine
  split
  · exact h
  next line =>
    have hheard := h.heard (.obj line)
    dsimp only
    split
    · obtain ⟨extra, hextra, heq⟩ := foldl_send w.sessions (.obj line)
        { w with heard := w.heard ++ [.obj line] }
      rw [heq]
      exact hheard.said_none hextra
    · split
      · exact hheard
      · split
        · exact hheard
        next hp => exact hheard.ended hp _ _
  · exact h.heard _

theorem kept_onDownstreamLine (h : Owned w) (hkept : Kept w) (raw : Option Json) :
    Kept (w.onDownstreamLine raw) := by
  unfold World.onDownstreamLine
  split
  · exact hkept
  next line =>
    have hheard := hkept.heard (.obj line)
    dsimp only
    split
    · obtain ⟨extra, hextra, heq⟩ := foldl_send w.sessions (.obj line)
        { w with heard := w.heard ++ [.obj line] }
      rw [heq]
      exact hheard.said_none hextra
    · split
      · exact hheard
      next p hline =>
        split
        · exact hheard
        next mapping hp =>
          refine (kept_ended_iff (h.heard (.obj line)) hheard hp).mpr fun _ => ?_
          refine .inl ⟨line, ?_, hline, rfl⟩
          exact mem_append_right _ (mem_singleton_self _)
  · exact hkept.heard _

theorem sweep_kept (h : Owned w) (hkept : Kept w) (now : Int) :
    Owned (w.sweep now) ∧ Kept (w.sweep now) :=
  sweep_foldl _ _ h.keys h hkept fun _ hentry => Assoc.lookup_of_mem h.keys hentry

/-! ## Any run -/

theorem kept_step_iff (h : Owned w) (hkept : Kept w) (action : Action) :
    Kept (step w action) ↔ careful w action = true := by
  cases action with
  | setDownstream downstream => exact iff_of_true hkept rfl
  | downstreamGone reason =>
    refine (kept_onDownstreamGone_iff h hkept reason).trans ?_
    simp [careful]
  | addSession s => exact iff_of_true (kept_addSession h hkept s) rfl
  | sessionClose s => exact iff_of_true (kept_teardownSession h hkept s) rfl
  | clientFrame s raw now =>
    unfold step
    dsimp only
    split
    · exact kept_onClientFrame_iff h hkept s raw now
    next hnew =>
      -- nobody is there
      refine iff_of_true hkept ?_
      have hclosed : s ∉ w.sessions := fun hs => hnew (h.sessions s hs)
      cases raw <;> simp [careful, hclosed]
  | startWrite => exact iff_of_true (kept_startWrite hkept) rfl
  | endWrite ok => exact iff_of_true (kept_endWrite hkept ok) rfl
  | catchWrite => exact kept_catchWrite_iff h hkept
  | downstreamLine raw => exact iff_of_true (kept_onDownstreamLine h hkept raw) rfl
  | sweep now => exact iff_of_true (sweep_kept h hkept now).2 rfl

theorem Owned.step (h : Owned w) (hkept : Kept w) (action : Action) : Owned (step w action) := by
  cases action with
  | setDownstream downstream => exact h.queued _ _ _ _ _ fun _ hwrite => .inr hwrite
  | downstreamGone reason => exact h.onDownstreamGone reason
  | addSession s => exact h.addSession s
  | sessionClose s => exact h.teardownSession s
  | clientFrame s raw now =>
    unfold Mcp.step
    dsimp only
    split
    next hs => exact h.onClientFrame hs raw now
    · exact h
  | startWrite => exact h.startWrite
  | endWrite ok => exact h.endWrite ok
  | catchWrite => exact h.catchWrite
  | downstreamLine raw => exact h.onDownstreamLine raw
  | sweep now => exact (sweep_kept h hkept now).1

theorem owned_start (ttlMs : Int) : Owned (World.start ttlMs) where
  keys := nodup_nil
  mapped := fun _ _ hp => (nomatch hp)
  given := fun _ hrequest => (nomatch hrequest)
  unique := fun _ hrequest => (nomatch hrequest)
  joined := fun _ hrequest => (nomatch hrequest)
  sessions := fun _ hs => (nomatch hs)
  handlers := fun _ hwrite => (nomatch hwrite)
  told := fun _ he => (nomatch he)

/-- A request of an open session has no answer in flight and one after, exactly as long as every
step is careful. -/
theorem answered_once_iff (ttlMs : Int) (actions : List Action) :
    Steps.Along step (fun w action => Kept (step w action)) (World.start ttlMs) actions ↔
      Steps.Along step (fun w action => careful w action = true) (World.start ttlMs) actions :=
  Steps.along_iff_of_invariant (fun w => Owned w ∧ Kept w)
    (fun _ action h hcareful =>
      ⟨h.1.step h.2 action, (kept_step_iff h.1 h.2 action).mpr hcareful⟩)
    (fun _ action h => kept_step_iff h.1 h.2 action)
    ⟨owned_start ttlMs, fun _ hrequest => (nomatch hrequest)⟩

/-! ## Answers under another id -/

def ping (id : Json) : Option Json :=
  some (.obj [("jsonrpc", .str "2.0"), ("id", id), ("method", .str "ping")])

/-- Two requests are in flight when the server exits: one error, under null. A request under "a"
that cannot be written gets its error under 1. -/
theorem lost_downstream_answers_null :
    ¬Steps.Along step (fun w action => Kept (step w action)) (World.start 300000)
      [.setDownstream 1, .addSession "s1", .clientFrame "s1" (ping (.num 5)) 0,
        .clientFrame "s1" (ping (.num 6)) 0, .downstreamGone "downstream exited"] ∧
    ¬Steps.Along step (fun w action => Kept (step w action)) (World.start 300000)
      [.addSession "s1", .clientFrame "s1" (ping (.str "a")) 0, .startWrite, .catchWrite] := by
  constructor
  · intro h
    obtain ⟨frame, hframe, -⟩ := (answeredOnce_iff_of_over rfl).mp
      (h.2.2.2.2.1 ⟨some 1, "s1", .num 5⟩ (by decide) (by decide))
    exact absurd hframe (cons_ne_nil _ _).symm
  · intro h
    obtain ⟨frame, hframe, his⟩ := (answeredOnce_iff_of_over rfl).mp
      (h.2.2.2.1 ⟨some 1, "s1", .str "a"⟩ (by decide) (by decide))
    injection hframe with hframe
    injection hframe with _ hframe
    rw [← hframe] at his
    exact absurd (isAnswer_errorFrame_iff.mp his) (by decide)

end Almyty.Mcp

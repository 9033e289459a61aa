import Almyty.Mcp.Answers

/-!
# What one session can do to another: `McpStdioMux`

`isolated_iff` says of any run when the sessions are isolated. An answer of the downstream goes to
the one session that asked under its proxy id, and has no answer yet. Every id the downstream is
given is the proxy id of that very frame. The frames it is given are what clients sent, in order,
each whole but for its id.

The last two need that no batch is written: `onClientFrame` looks for an id at the top of a frame
and an array has none there, so the ids of its requests are passed on as the client wrote them. The
answer to one of them can then be taken for the answer to the request of another session.
-/

namespace Almyty.Mcp

open Almyty.Lib List

structure Taken where
  sessionId : SessionId
  received : Json
  write : Write
  deriving DecidableEq

structure Multiplexer where
  world : World
  closed : Bool := false
  taken : List Taken := []

def World.close (w : World) : World := { w with idMap := [], sessions := [], downstream := none }

inductive MuxAction
  | act (action : Action)
  | close
  deriving DecidableEq

def chained (w w' : World) : List Write := w'.writeChain.drop w.writeChain.length

def muxStep (m : Multiplexer) : MuxAction → Multiplexer
  | .act (.clientFrame sessionId raw now) =>
    if m.closed then m
    else
      let w := step m.world (.clientFrame sessionId raw now)
      { m with
        world := w
        taken := m.taken ++ (chained m.world w).map fun write =>
          ⟨sessionId, raw.getD .null, write⟩ }
  | .act action => { m with world := step m.world action }
  | .close => { m with world := m.world.close, closed := true }

def Multiplexer.start (ttlMs : Int) : Multiplexer := { world := World.start ttlMs }

def frameIds : Json → List Json
  | .arr frames => frames.filterMap requestId
  | frame => (requestId frame).toList

def isBatch : Json → Bool
  | .arr frames => frames.filterMap requestId ≠ []
  | _ => false

/-- A frame with an id is put on the chain under a proxy id. -/
def Taken.Under (t : Taken) (p : Int) : Prop :=
  ∃ fields id, t.received = .obj fields ∧ requestId t.received = some id ∧
    t.write = ⟨withId fields (.num p), some (p, t.sessionId)⟩

def Taken.Verbatim (t : Taken) : Prop :=
  requestId t.received = none ∧ t.write = ⟨t.received, none⟩

/-- An answer of the downstream goes to the session that asked, once. -/
def RoutedHome (m : Multiplexer) (line : Fields) : Prop :=
  isString (line.lookup "method") = false →
    ∃ extra, (m.world.onDownstreamLine (some (.obj line))).sent = m.world.sent ++ extra ∧
      extra.length ≤ 1 ∧
      ∀ e ∈ extra, ∃ t ∈ m.taken, ∃ p id, lineId line = some p ∧ t.Under p ∧
        requestId t.received = some id ∧ m.world.answers p = [] ∧
        e = ⟨t.sessionId, withId line id, some p⟩

def RoutedAt (m : Multiplexer) : MuxAction → Prop
  | .act (.downstreamLine (some (.obj line))) => RoutedHome m line
  | .act (.downstreamLine raw) => (m.world.onDownstreamLine raw).sent = m.world.sent
  | _ => True

def Multiplexer.frames (m : Multiplexer) : List Json := m.world.written.map (·.2)

structure Isolated (m : Multiplexer) : Prop where
  /-- Every id is the proxy id of its frame. -/
  given : ∀ frame ∈ m.frames, ∀ id ∈ frameIds frame,
    ∃ t ∈ m.taken, ∃ p, t.Under p ∧ t.write.frame = frame ∧ id = .num p
  /-- No id is in two frames. -/
  once : m.frames.Pairwise fun frame frame' => ∀ id ∈ frameIds frame, id ∉ frameIds frame'
  /-- An id that is in flight is in a frame of the session it is in flight for. -/
  own : ∀ frame ∈ m.frames, ∀ e ∈ m.world.idMap, .num e.1 ∈ frameIds frame →
    ∃ t ∈ m.taken, t.write.frame = frame ∧ t.sessionId = e.2.sessionId
  /-- The frames are in the order in which they were received. -/
  order : m.frames.Sublist (m.taken.map (·.write.frame))
  /-- Each is whole, but for its id. -/
  whole : ∀ t ∈ m.taken, t.write.frame = t.received ∨
    ∃ fields p, t.received = .obj fields ∧ t.write.frame = withId fields (.num p)

def noBatch (m : Multiplexer) : MuxAction → Bool
  | .act (.endWrite true) =>
    m.world.writing.isNone || m.world.writeChain.head?.all fun write => !isBatch write.frame
  | _ => true

/-! ## Frames -/

theorem frameIds_withId (fields : Fields) (p : Int) :
    frameIds (withId fields (.num p)) = [.num p] := by
  have hlookup : (Assoc.put fields "id" (.num p)).lookup "id" = some (Json.num p) := by
    rw [Assoc.lookup_put, if_pos rfl]
  simp [frameIds, withId, requestId, hlookup]

variable {frame : Json} {t : Taken} {w : World}

theorem frameIds_of_not_batch (hid : requestId frame = none) (hbatch : isBatch frame = false) :
    frameIds frame = [] := by
  cases frame with
  | arr frames => simpa [isBatch, frameIds] using hbatch
  | _ => simp [frameIds, hid]

theorem frameIds_ne_nil (hbatch : isBatch frame = true) :
    ∃ id, id ∈ frameIds frame := by
  cases frame with
  | arr frames =>
    have hne : frames.filterMap requestId ≠ [] := by simpa [isBatch] using hbatch
    exact exists_mem_of_ne_nil _ hne
  | _ => cases hbatch

theorem Taken.Under.frame_ne_batch {p : Int} (h : t.Under p) :
    isBatch t.write.frame = false := by
  obtain ⟨fields, id, -, -, hwrite⟩ := h
  rw [hwrite]
  rfl

theorem Taken.mem_frameIds (h : t.Verbatim ∨ ∃ p, t.Under p)
    (hbatch : isBatch t.write.frame = false) {id : Json} (hid : id ∈ frameIds t.write.frame) :
    ∃ p, t.Under p ∧ id = .num p := by
  rcases h with ⟨hnone, hwrite⟩ | ⟨p, hunder⟩
  · rw [hwrite] at hid hbatch
    rw [frameIds_of_not_batch hnone hbatch] at hid
    cases hid
  · have hwrite := hunder
    obtain ⟨fields, _, _, _, hwrite⟩ := hwrite
    rw [hwrite, frameIds_withId] at hid
    exact ⟨p, hunder, mem_singleton.mp hid⟩

theorem Taken.Under.eq {p p' : Int} (h : t.Under p) (h' : t.Under p') : p = p' := by
  obtain ⟨_, _, _, _, hwrite⟩ := h
  obtain ⟨_, _, _, _, hwrite'⟩ := h'
  rw [hwrite] at hwrite'
  have hhandler := congrArg Write.handler hwrite'
  exact congrArg Prod.fst (Option.some.inj hhandler)

/-! ## Steps that take nothing -/

/-- Requests end, frames leave the chain in order, and something is said of requests there are. -/
structure Quiet (w w' : World) : Prop where
  idMap : ∀ e ∈ w'.idMap, e ∈ w.idMap ∧ w'.answers e.1 = w.answers e.1
  seq : w'.proxyIdSeq = w.proxyIdSeq
  told : ∀ sent ∈ w'.sent, sent ∈ w.sent ∨ ∀ p, sent.answers = some p → p ≤ w.proxyIdSeq
  queue : ∃ gone out, w.writeChain = gone ++ w'.writeChain ∧ w'.written = w.written ++ out ∧
    (out.map (·.2)).Sublist (gone.map (·.frame))

theorem Quiet.unqueued {w' : World}
    (idMap : ∀ e ∈ w'.idMap, e ∈ w.idMap ∧ w'.answers e.1 = w.answers e.1)
    (seq : w'.proxyIdSeq = w.proxyIdSeq)
    (told : ∀ sent ∈ w'.sent, sent ∈ w.sent ∨ ∀ p, sent.answers = some p → p ≤ w.proxyIdSeq)
    (chain : w'.writeChain = w.writeChain) (written : w'.written = w.written) :
    Quiet w w' :=
  ⟨idMap, seq, told, [], [], by rw [chain]; rfl, by rw [written, append_nil], .slnil⟩

theorem Quiet.refl (w : World) : Quiet w w :=
  .unqueued (fun _ he => ⟨he, rfl⟩) rfl (fun _ hsent => .inl hsent) rfl rfl

theorem Quiet.trans {w' w'' : World} (h : Quiet w w') (h' : Quiet w' w'') : Quiet w w'' where
  idMap e he := by
    obtain ⟨he', hanswers'⟩ := h'.idMap e he
    obtain ⟨he, hanswers⟩ := h.idMap e he'
    exact ⟨he, hanswers'.trans hanswers⟩
  seq := h'.seq.trans h.seq
  told sent hsent := by
    rcases h'.told sent hsent with hsent | hold
    · exact h.told sent hsent
    · exact .inr (h.seq ▸ hold)
  queue := by
    obtain ⟨gone, out, hchain, hwritten, hsub⟩ := h.queue
    obtain ⟨gone', out', hchain', hwritten', hsub'⟩ := h'.queue
    refine ⟨gone ++ gone', out ++ out', ?_, ?_, ?_⟩
    · rw [hchain, hchain', append_assoc]
    · rw [hwritten', hwritten, append_assoc]
    · rw [map_append, map_append]
      exact hsub.append hsub'

theorem quiet_said (w : World) {extra : List Sent} (hextra : ∀ e ∈ extra, e.answers = none) :
    Quiet w (w.said extra) := by
  refine .unqueued (fun e he => ⟨he, answers_said_none hextra _⟩) rfl ?_ rfl rfl
  intro sent hsent
  rcases mem_append.mp hsent with hsent | hsent
  · exact .inl hsent
  · refine .inr ?_
    intro p hp
    rw [hextra sent hsent] at hp
    cases hp

theorem quiet_ended (w : World) {p : Int} (hp : p ≤ w.proxyIdSeq) (s : SessionId) (frame : Json) :
    Quiet w ((w.free p).send s frame (some p)) := by
  rw [send_eq]
  refine .unqueued ?_ rfl ?_ rfl rfl
  · intro e he
    obtain ⟨he, hne⟩ := mem_filter.mp he
    refine ⟨he, ?_⟩
    rw [answers_append, filter_eq_nil_iff.mpr, append_nil]
    · rfl
    · intro sent hsent
      split at hsent
      · rw [mem_singleton.mp hsent]
        simpa using Ne.symm (of_decide_eq_true hne)
      · cases hsent
  · intro sent hsent
    rcases mem_append.mp hsent with hsent | hsent
    · exact .inl hsent
    · refine .inr ?_
      intro q hq
      split at hsent
      · rw [mem_singleton.mp hsent] at hq
        exact Option.some.inj hq ▸ hp
      · cases hsent

theorem quiet_sweep_foldl (cutoff : Int) (entries : List (Int × IdMapping)) (w : World)
    (hentries : ∀ e ∈ entries, e.1 ≤ w.proxyIdSeq) :
    Quiet w (entries.foldl (World.sweepEntry cutoff) w) := by
  induction entries generalizing w with
  | nil => exact .refl w
  | cons e entries ih =>
    have hone : Quiet w (World.sweepEntry cutoff w e) := by
      unfold World.sweepEntry
      split
      · exact quiet_ended w (hentries e mem_cons_self) _ _
      · exact .refl w
    refine hone.trans (ih _ ?_)
    rw [hone.seq]
    exact fun e' he' => hentries e' (mem_cons_of_mem _ he')

theorem quiet_onDownstreamGone (w : World) (reason : String) :
    Quiet w (w.onDownstreamGone reason) := by
  unfold World.onDownstreamGone World.errorSession
  obtain ⟨extra, hextra, heq⟩ := foldl_send (w.idMap.map (·.2.sessionId)).eraseDups
    (errorFrame .null (-32011) ("downstream unavailable: " ++ reason))
    { w with downstream := none, idMap := [] }
  dsimp only
  rw [heq]
  refine Quiet.trans ?_ (quiet_said _ hextra)
  exact .unqueued (fun e he => absurd he not_mem_nil) rfl (fun _ hsent => .inl hsent) rfl rfl

theorem quiet_startWrite (w : World) : Quiet w w.startWrite := by
  unfold World.startWrite
  split
  next write rest hwriting hchain =>
    split
    · exact ⟨fun _ he => ⟨he, rfl⟩, rfl, fun _ hsent => .inl hsent, [write], [], hchain,
        (append_nil _).symm, nil_sublist _⟩
    · exact .unqueued (fun _ he => ⟨he, rfl⟩) rfl (fun _ hsent => .inl hsent) rfl rfl
  · exact .refl w

theorem quiet_endWrite (w : World) (ok : Bool) : Quiet w (w.endWrite ok) := by
  unfold World.endWrite
  split
  next downstream write rest hwriting hchain =>
    dsimp only
    split
    · exact ⟨fun _ he => ⟨he, rfl⟩, rfl, fun _ hsent => .inl hsent, [write],
        [(downstream, write.frame)], hchain, rfl, .refl _⟩
    · exact ⟨fun _ he => ⟨he, rfl⟩, rfl, fun _ hsent => .inl hsent, [write], [], hchain,
        (append_nil _).symm, nil_sublist _⟩
  · exact .refl w

theorem quiet_catchWrite (hmap : ∀ e ∈ w.idMap, e.1 ≤ w.proxyIdSeq) :
    Quiet w w.catchWrite := by
  unfold World.catchWrite World.errorSession
  split
  · exact .refl w
  next write rest hrejected =>
    have hrest : Quiet w { w with rejected := rest } :=
      .unqueued (fun _ he => ⟨he, rfl⟩) rfl (fun _ hsent => .inl hsent) rfl rfl
    dsimp only
    split
    · exact hrest
    next p s hhandler =>
      split
      next hin =>
        obtain ⟨mapping, hp⟩ := Option.isSome_iff_exists.mp hin
        have hle := hmap _ (Assoc.mem_of_lookup hp)
        exact hrest.trans (quiet_ended { w with rejected := rest } hle _ _)
      · exact hrest

theorem quiet_heard (w : World) (line : Json) : Quiet w { w with heard := w.heard ++ [line] } :=
  .unqueued (fun _ he => ⟨he, rfl⟩) rfl (fun _ hsent => .inl hsent) rfl rfl

theorem quiet_onDownstreamLine (hmap : ∀ e ∈ w.idMap, e.1 ≤ w.proxyIdSeq) (raw : Option Json) :
    Quiet w (w.onDownstreamLine raw) := by
  unfold World.onDownstreamLine
  split
  · exact .refl w
  next line =>
    have hheard := quiet_heard w (.obj line)
    dsimp only
    split
    · obtain ⟨extra, hextra, heq⟩ := foldl_send w.sessions (.obj line)
        { w with heard := w.heard ++ [.obj line] }
      rw [heq]
      exact hheard.trans (quiet_said _ hextra)
    · split
      · exact hheard
      · split
        · exact hheard
        next hp =>
          exact hheard.trans (quiet_ended { w with heard := w.heard ++ [.obj line] }
            (hmap _ (Assoc.mem_of_lookup hp)) _ _)
  · exact quiet_heard w _

theorem quiet_addSession (w : World) (s : SessionId) : Quiet w (w.addSession s) := by
  unfold World.addSession
  split
  · exact .refl w
  · exact .unqueued (fun _ he => ⟨he, rfl⟩) rfl (fun _ hsent => .inl hsent) rfl rfl

theorem quiet_teardownSession (w : World) (s : SessionId) : Quiet w (w.teardownSession s) :=
  .unqueued (fun _ he => ⟨(mem_filter.mp he).1, rfl⟩) rfl (fun _ hsent => .inl hsent) rfl rfl

theorem quiet_close (w : World) : Quiet w w.close :=
  .unqueued (fun _ he => absurd he not_mem_nil) rfl (fun _ hsent => .inl hsent) rfl rfl

theorem quiet_step (hmap : ∀ e ∈ w.idMap, e.1 ≤ w.proxyIdSeq) {action : Action}
    (h : ∀ s raw now, action ≠ .clientFrame s raw now) : Quiet w (step w action) := by
  cases action with
  | setDownstream downstream =>
    exact .unqueued (fun _ he => ⟨he, rfl⟩) rfl (fun _ hsent => .inl hsent) rfl rfl
  | downstreamGone reason => exact quiet_onDownstreamGone w reason
  | addSession s => exact quiet_addSession w s
  | sessionClose s => exact quiet_teardownSession w s
  | clientFrame s raw now => exact absurd rfl (h s raw now)
  | startWrite => exact quiet_startWrite w
  | endWrite ok => exact quiet_endWrite w ok
  | catchWrite => exact quiet_catchWrite hmap
  | downstreamLine raw => exact quiet_onDownstreamLine hmap raw
  | sweep now => exact quiet_sweep_foldl _ _ w hmap

/-! ## What the multiplexer has taken -/

structure Forwarded (m : Multiplexer) : Prop where
  mapped : ∀ e ∈ m.world.idMap, m.world.answers e.1 = [] ∧ ∃ t ∈ m.taken,
    t.sessionId = e.2.sessionId ∧ requestId t.received = some e.2.originalId ∧ t.Under e.1
  taken : ∀ t ∈ m.taken, t.Verbatim ∨ ∃ p, t.Under p
  given : ∀ t ∈ m.taken, ∀ p, t.Under p → p ≤ m.world.proxyIdSeq
  /-- Each frame is under a greater proxy id than the ones before it. -/
  increasing : m.taken.Pairwise fun t t' => ∀ p p', t.Under p → t'.Under p' → p < p'
  told : ∀ sent ∈ m.world.sent, ∀ p, sent.answers = some p → p ≤ m.world.proxyIdSeq
  queue : ∃ gone, m.taken.map (·.write) = gone ++ m.world.writeChain ∧
    m.frames.Sublist (gone.map (·.frame))

variable {m : Multiplexer}

theorem Forwarded.idMap_le (h : Forwarded m) : ∀ e ∈ m.world.idMap, e.1 ≤ m.world.proxyIdSeq := by
  intro e he
  obtain ⟨-, t, ht, -, -, hunder⟩ := h.mapped e he
  exact h.given t ht e.1 hunder

theorem Forwarded.quiet (h : Forwarded m) (hquiet : Quiet m.world w) (closed : Bool) :
    Forwarded { world := w, closed, taken := m.taken } where
  mapped e he := by
    obtain ⟨he, hanswers⟩ := hquiet.idMap e he
    rw [hanswers]
    exact h.mapped e he
  taken := h.taken
  given t ht p hunder := hquiet.seq ▸ h.given t ht p hunder
  increasing := h.increasing
  told sent hsent p hp := by
    rw [hquiet.seq]
    rcases hquiet.told sent hsent with hsent | hold
    · exact h.told sent hsent p hp
    · exact hold p hp
  queue := by
    obtain ⟨gone, htaken, hsub⟩ := h.queue
    obtain ⟨gone', out, hchain, hwritten, hsub'⟩ := hquiet.queue
    refine ⟨gone ++ gone', ?_, ?_⟩
    · rw [htaken, hchain, append_assoc]
    · rw [Multiplexer.frames, hwritten, map_append, map_append]
      exact hsub.append hsub'

theorem forwarded_start (ttlMs : Int) : Forwarded (Multiplexer.start ttlMs) where
  mapped _ he := absurd he not_mem_nil
  taken _ ht := absurd ht not_mem_nil
  given _ ht := absurd ht not_mem_nil
  increasing := .nil
  told _ hsent := absurd hsent not_mem_nil
  queue := ⟨[], rfl, .slnil⟩

theorem Forwarded.take (h : Forwarded m) (hform : t.Verbatim ∨ ∃ p, t.Under p)
    (hseq : m.world.proxyIdSeq ≤ w.proxyIdSeq)
    (hgiven : ∀ p, t.Under p → m.world.proxyIdSeq < p ∧ p ≤ w.proxyIdSeq)
    (hmapped : ∀ e ∈ w.idMap, e ∈ m.world.idMap ∨
      t.sessionId = e.2.sessionId ∧ requestId t.received = some e.2.originalId ∧ t.Under e.1)
    (hsent : w.sent = m.world.sent) (hchain : w.writeChain = m.world.writeChain ++ [t.write])
    (hwritten : w.written = m.world.written) :
    Forwarded { m with world := w, taken := m.taken ++ [t] } := by
  have hanswers : ∀ p, w.answers p = m.world.answers p := by
    intro p
    rw [World.answers, hsent]
    rfl
  constructor
  · intro e he
    rcases hmapped e he with he | hnew
    · obtain ⟨hnone, t', ht', hrest⟩ := h.mapped e he
      exact ⟨(hanswers e.1).trans hnone, t', mem_append_left _ ht', hrest⟩
    · refine ⟨?_, t, mem_append_right _ mem_cons_self, hnew⟩
      -- nothing has been said of an id that was not given
      rw [hanswers, World.answers, filter_eq_nil_iff]
      intro sent hmem hp
      have hle := h.told sent hmem e.1 (of_decide_eq_true hp)
      have hlt := (hgiven e.1 hnew.2.2).1
      omega
  · intro t' ht'
    rcases mem_append.mp ht' with ht' | ht'
    · exact h.taken t' ht'
    · rw [mem_singleton.mp ht']
      exact hform
  · intro t' ht' p hunder
    rcases mem_append.mp ht' with ht' | ht'
    · exact Int.le_trans (h.given t' ht' p hunder) hseq
    · rw [mem_singleton.mp ht'] at hunder
      exact (hgiven p hunder).2
  · refine pairwise_append.mpr ⟨h.increasing, pairwise_singleton _ _, ?_⟩
    -- the new id is past the counter, and every id before is not
    intro t' ht' t'' ht'' p p' hunder hunder'
    rw [mem_singleton.mp ht''] at hunder'
    have hle := h.given t' ht' p hunder
    have hlt := (hgiven p' hunder').1
    omega
  · intro sent hmem p hp
    rw [hsent] at hmem
    exact Int.le_trans (h.told sent hmem p hp) hseq
  · obtain ⟨gone, htaken, hsub⟩ := h.queue
    refine ⟨gone, ?_, ?_⟩
    · rw [map_append, htaken, hchain, append_assoc]
      rfl
    · rw [Multiplexer.frames, hwritten]
      exact hsub

theorem Forwarded.verbatim (h : Forwarded m) (s : SessionId) (hid : requestId frame = none) :
    Forwarded { m with
      world := m.world.enqueueFrame ⟨frame, none⟩
      taken := m.taken ++ [⟨s, frame, ⟨frame, none⟩⟩] } := by
  refine h.take (.inl ⟨hid, rfl⟩) (Int.le_refl _) ?_ (fun e he => .inl he) rfl rfl rfl
  intro p hunder
  obtain ⟨_, _, _, _, hwrite⟩ := hunder
  cases congrArg Write.handler hwrite

theorem Forwarded.request (h : Forwarded m) (s : SessionId) {fields : Fields} {id : Json}
    (hid : requestId (.obj fields) = some id) (now : Int)
    (hleft : ¬ maxSafeInteger ≤ m.world.proxyIdSeq) :
    Forwarded { m with
      world := m.world.onRequest s fields id now
      taken := m.taken ++ [⟨s, .obj fields,
        ⟨withId fields (.num (m.world.proxyIdSeq + 1 : Int)),
          some (m.world.proxyIdSeq + 1, s)⟩⟩] } := by
  have hunder : Taken.Under ⟨s, .obj fields,
      ⟨withId fields (.num (m.world.proxyIdSeq + 1 : Int)), some (m.world.proxyIdSeq + 1, s)⟩⟩
      (m.world.proxyIdSeq + 1) := ⟨fields, id, rfl, hid, rfl⟩
  have hrequest : m.world.onRequest s fields id now =
      ({ m.world with
        proxyIdSeq := m.world.proxyIdSeq + 1
        idMap := Assoc.put m.world.idMap (m.world.proxyIdSeq + 1) ⟨s, id, now⟩
        requests := m.world.requests ++ [⟨some (m.world.proxyIdSeq + 1), s, id⟩]
        writeChain := m.world.writeChain ++
          [⟨withId fields (.num (m.world.proxyIdSeq + 1 : Int)),
            some (m.world.proxyIdSeq + 1, s)⟩] } : World) := by
    rw [World.onRequest, if_neg hleft]
    rfl
  rw [hrequest]
  refine h.take (.inr ⟨_, hunder⟩) ?_ ?_ ?_ rfl rfl rfl
  · dsimp only
    omega
  · intro p hp
    rw [← hunder.eq hp]
    dsimp only
    omega
  · intro e he
    rcases Assoc.mem_put he with rfl | he
    · exact .inr ⟨rfl, hid, hunder⟩
    · exact .inl he

theorem chained_append (w w' : World) (writes : List Write)
    (h : w'.writeChain = w.writeChain ++ writes) : chained w w' = writes := by
  rw [chained, h, drop_left]

theorem Forwarded.clientFrame (h : Forwarded m) (s : SessionId) (raw : Option Json) (now : Int) :
    Forwarded (muxStep m (.act (.clientFrame s raw now))) := by
  have hnothing : ∀ w, Quiet m.world w → w.writeChain = m.world.writeChain → Forwarded { m with
      world := w
      taken := m.taken ++ (chained m.world w).map fun write => ⟨s, raw.getD .null, write⟩ } := by
    intro w hquiet hchain
    rw [chained_append m.world w [] (by rw [hchain, append_nil]), map_nil, append_nil]
    exact h.quiet hquiet m.closed
  unfold muxStep
  dsimp only
  split
  · exact h
  · unfold step
    dsimp only
    split
    · unfold World.onClientFrame
      split
      · rw [World.errorSession, send_eq]
        refine hnothing _ (quiet_said _ ?_) rfl
        intro e he
        split at he
        · rw [mem_singleton.mp he]
        · cases he
      · exact hnothing _ (.refl _) rfl
      next fields =>
        split
        next hid =>
          rw [chained_append m.world _ _ rfl]
          exact h.verbatim s hid
        next id hid =>
          by_cases hleft : maxSafeInteger ≤ m.world.proxyIdSeq
          · refine hnothing _ ?_ ?_
            · rw [World.onRequest, if_pos hleft]
              exact .unqueued (fun _ he => ⟨he, rfl⟩) rfl (fun _ hsent => .inl hsent) rfl rfl
            · rw [World.onRequest, if_pos hleft]
          · have hrequest := h.request s hid now hleft
            rw [chained_append m.world _ [⟨withId fields
              (.num (m.world.proxyIdSeq + 1 : Int)), some (m.world.proxyIdSeq + 1, s)⟩] ?_]
            · exact hrequest
            · rw [World.onRequest, if_neg hleft]
              rfl
      next frame hnull hobj =>
        rw [chained_append m.world _ _ rfl]
        refine h.verbatim s ?_
        unfold requestId
        split
        next fields => exact absurd rfl (hobj fields)
        · rfl
    · exact hnothing _ (.refl _) rfl

theorem Forwarded.step (h : Forwarded m) (action : MuxAction) : Forwarded (muxStep m action) := by
  cases action with
  | close => exact h.quiet (quiet_close m.world) true
  | act action =>
    cases action with
    | clientFrame s raw now => exact h.clientFrame s raw now
    | _ => exact h.quiet (quiet_step h.idMap_le fun _ _ _ heq => by cases heq) m.closed

/-! ## Answers go home -/

theorem routedHome (h : Forwarded m) (line : Fields) : RoutedHome m line := by
  intro hmethod
  have hnone : ∀ w : World, w.sent = m.world.sent →
      ∃ extra, w.sent = m.world.sent ++ extra ∧ extra.length ≤ 1 ∧
        ∀ e ∈ extra, ∃ t ∈ m.taken, ∃ p id, lineId line = some p ∧ t.Under p ∧
          requestId t.received = some id ∧ m.world.answers p = [] ∧
          e = ⟨t.sessionId, withId line id, some p⟩ := fun w hw =>
    ⟨[], by rw [hw, append_nil], Nat.zero_le _, fun e he => absurd he not_mem_nil⟩
  unfold World.onDownstreamLine
  dsimp only
  rw [if_neg (by rw [hmethod]; decide)]
  split
  · exact hnone _ rfl
  next p hline =>
    split
    · exact hnone _ rfl
    next mapping hp =>
      obtain ⟨hanswers, t, ht, hsession, hid, hunder⟩ := h.mapped _ (Assoc.mem_of_lookup hp)
      rw [send_eq]
      refine ⟨_, rfl, ?_, ?_⟩
      · split <;> simp
      · intro e he
        split at he
        · rw [mem_singleton.mp he, ← hsession]
          exact ⟨t, ht, p, mapping.originalId, hline, hunder, hid, hanswers, rfl⟩
        · cases he

theorem routedAt (h : Forwarded m) (action : MuxAction) : RoutedAt m action := by
  unfold RoutedAt
  split
  · exact routedHome h _
  next raw hobj =>
    unfold World.onDownstreamLine
    split
    · rfl
    next line => exact absurd rfl (hobj line)
    · rfl
  · trivial

/-! ## What the downstream is given -/

theorem Forwarded.mem_taken (h : Forwarded m) (hframe : frame ∈ m.frames) :
    ∃ t ∈ m.taken, t.write.frame = frame := by
  obtain ⟨gone, htaken, hsub⟩ := h.queue
  obtain ⟨write, hwrite, rfl⟩ := mem_map.mp (hsub.subset hframe)
  have hmem : write ∈ m.taken.map (·.write) := by
    rw [htaken]
    exact mem_append_left _ hwrite
  obtain ⟨t, ht, rfl⟩ := mem_map.mp hmem
  exact ⟨t, ht, rfl⟩

theorem Forwarded.order (h : Forwarded m) : m.frames.Sublist (m.taken.map (·.write.frame)) := by
  obtain ⟨gone, htaken, hsub⟩ := h.queue
  have hframes : m.taken.map (·.write.frame) =
      gone.map (·.frame) ++ m.world.writeChain.map (·.frame) := by
    rw [← map_append, ← htaken, map_map]
    rfl
  rw [hframes]
  exact hsub.trans (sublist_append_left _ _)

theorem Forwarded.whole (h : Forwarded m) : ∀ t ∈ m.taken, t.write.frame = t.received ∨
    ∃ fields p, t.received = .obj fields ∧ t.write.frame = withId fields (.num p) := by
  intro t ht
  rcases h.taken t ht with ⟨-, hwrite⟩ | ⟨p, fields, id, hreceived, -, hwrite⟩
  · rw [hwrite]
    exact .inl rfl
  · rw [hwrite]
    exact .inr ⟨fields, p, hreceived, rfl⟩

theorem Forwarded.under_unique (h : Forwarded m) {t' : Taken} (ht : t ∈ m.taken)
    (ht' : t' ∈ m.taken) {p : Int} (hunder : t.Under p) (hunder' : t'.Under p) : t = t' := by
  by_contra hne
  have hapart : m.taken.Pairwise fun t t' => ∀ p, t.Under p → ¬ t'.Under p :=
    h.increasing.imp fun hlt p hp hp' => by
      have hself := hlt p p hp hp'
      omega
  have hsymm : Std.Symm fun t t' : Taken => ∀ p, t.Under p → ¬ t'.Under p :=
    ⟨fun _ _ hnot p hp hp' => hnot p hp' hp⟩
  exact hapart.forall ht ht' hne p hunder hunder'

theorem json_num_inj {p p' : Int} (h : Json.num p = Json.num p') : p = p' :=
  Rat.intCast_inj.mp (Json.num.inj h)

theorem Forwarded.apart (h : Forwarded m) :
    (m.taken.map (·.write.frame)).Pairwise fun frame frame' =>
      isBatch frame = false → isBatch frame' = false →
        ∀ id ∈ frameIds frame, id ∉ frameIds frame' := by
  rw [pairwise_map]
  refine h.increasing.imp_of_mem ?_
  intro t t' ht ht' hlt hbatch hbatch' id hid hid'
  obtain ⟨p, hunder, rfl⟩ := Taken.mem_frameIds (h.taken t ht) hbatch hid
  obtain ⟨p', hunder', heq⟩ := Taken.mem_frameIds (h.taken t' ht') hbatch' hid'
  have hlt' := hlt p p' hunder hunder'
  have hsame := json_num_inj heq
  omega

theorem Forwarded.isolated (h : Forwarded m) (hbatch : ∀ frame ∈ m.frames, isBatch frame = false) :
    Isolated m := by
  have hgiven : ∀ frame ∈ m.frames, ∀ id ∈ frameIds frame,
      ∃ t ∈ m.taken, ∃ p, t.Under p ∧ t.write.frame = frame ∧ id = .num p := by
    intro frame hframe id hid
    obtain ⟨t, ht, rfl⟩ := h.mem_taken hframe
    obtain ⟨p, hunder, hp⟩ := Taken.mem_frameIds (h.taken t ht) (hbatch _ hframe) hid
    exact ⟨t, ht, p, hunder, rfl, hp⟩
  refine ⟨hgiven, ?_, ?_, h.order, h.whole⟩
  · refine (h.apart.sublist h.order).imp_of_mem ?_
    intro frame frame' hframe hframe' hapart
    exact hapart (hbatch frame hframe) (hbatch frame' hframe')
  · intro frame hframe e he hid
    obtain ⟨t, ht, p, hunder, hwrite, hp⟩ := hgiven frame hframe _ hid
    obtain ⟨-, t', ht', hsession, -, hunder'⟩ := h.mapped e he
    rw [← json_num_inj hp] at hunder
    rw [h.under_unique ht ht' hunder hunder'] at hwrite
    exact ⟨t', ht', hwrite, hsession⟩

theorem Isolated.not_batch (h : Isolated m) : ∀ frame ∈ m.frames, isBatch frame = false := by
  intro frame hframe
  by_contra hbatch
  obtain ⟨id, hid⟩ := frameIds_ne_nil (by simpa using hbatch)
  obtain ⟨t, -, p, hunder, rfl, -⟩ := h.given frame hframe id hid
  exact hbatch hunder.frame_ne_batch

theorem isolated_iff_not_batch (h : Forwarded m) :
    Isolated m ↔ ∀ frame ∈ m.frames, isBatch frame = false :=
  ⟨Isolated.not_batch, h.isolated⟩

/-! ## Any run -/

theorem send_written (w : World) (s : SessionId) (frame : Json) (answers : Option Int) :
    (w.send s frame answers).written = w.written := by
  rw [send_eq]
  rfl

theorem sweep_written (cutoff : Int) (entries : List (Int × IdMapping)) (w : World) :
    (entries.foldl (World.sweepEntry cutoff) w).written = w.written := by
  induction entries generalizing w with
  | nil => rfl
  | cons e entries ih =>
    rw [foldl_cons, ih, World.sweepEntry]
    split
    · exact send_written ..
    · rfl

theorem onDownstreamGone_written (w : World) (reason : String) :
    (w.onDownstreamGone reason).written = w.written := by
  unfold World.onDownstreamGone World.errorSession
  obtain ⟨extra, -, heq⟩ := foldl_send (w.idMap.map (·.2.sessionId)).eraseDups
    (errorFrame .null (-32011) ("downstream unavailable: " ++ reason))
    { w with downstream := none, idMap := [] }
  dsimp only
  rw [heq]
  rfl

theorem onDownstreamLine_written (w : World) (raw : Option Json) :
    (w.onDownstreamLine raw).written = w.written := by
  unfold World.onDownstreamLine
  split
  · rfl
  next line =>
    dsimp only
    split
    · obtain ⟨extra, -, heq⟩ := foldl_send w.sessions (.obj line)
        { w with heard := w.heard ++ [.obj line] }
      rw [heq]
      rfl
    · split
      · rfl
      · split
        · rfl
        · exact send_written ..
  · rfl

theorem onClientFrame_written (w : World) (s : SessionId) (raw : Option Json) (now : Int) :
    (w.onClientFrame s raw now).written = w.written := by
  unfold World.onClientFrame
  split
  · exact send_written ..
  · rfl
  · split
    · rfl
    · unfold World.onRequest
      split <;> rfl
  · rfl

theorem catchWrite_written (w : World) : w.catchWrite.written = w.written := by
  unfold World.catchWrite
  split
  · rfl
  · dsimp only
    split
    · rfl
    · split
      · exact send_written ..
      · rfl

theorem startWrite_written (w : World) : w.startWrite.written = w.written := by
  unfold World.startWrite
  repeat' split
  all_goals rfl

theorem step_written (w : World) {action : Action} (h : ∀ ok, action ≠ .endWrite ok) :
    (step w action).written = w.written := by
  cases action with
  | setDownstream | sessionClose => rfl
  | downstreamGone reason => exact onDownstreamGone_written w reason
  | addSession s =>
    unfold step World.addSession
    dsimp only
    split <;> rfl
  | clientFrame s raw now =>
    unfold step
    dsimp only
    split
    · exact onClientFrame_written w s raw now
    · rfl
  | startWrite => exact startWrite_written w
  | endWrite ok => exact absurd rfl (h ok)
  | catchWrite => exact catchWrite_written w
  | downstreamLine raw => exact onDownstreamLine_written w raw
  | sweep now => exact sweep_written _ _ w

theorem frames_step (m : Multiplexer) {action : MuxAction}
    (h : ∀ ok, action ≠ .act (.endWrite ok)) : (muxStep m action).frames = m.frames := by
  cases action with
  | close => rfl
  | act action =>
    have hwritten := step_written m.world fun ok heq => h ok (congrArg MuxAction.act heq)
    cases action with
    | clientFrame s raw now =>
      unfold muxStep
      dsimp only
      split
      · rfl
      · exact congrArg (List.map (·.2)) hwritten
    | _ => exact congrArg (List.map (·.2)) hwritten

theorem frames_endWrite (m : Multiplexer) (ok : Bool) :
    (muxStep m (.act (.endWrite ok))).frames =
      m.frames ++ (if ok = true ∧ m.world.writing.isSome then
        (m.world.writeChain.head?.map (·.frame)).toList else []) := by
  unfold muxStep Mcp.step World.endWrite Multiplexer.frames
  dsimp only
  cases m.world.writing with
  | none => simp
  | some downstream =>
    cases m.world.writeChain with
    | nil => simp
    | cons write rest => cases ok <;> simp

theorem frames_noBatch_iff (hbatch : ∀ frame ∈ m.frames, isBatch frame = false)
    (action : MuxAction) :
    (∀ frame ∈ (muxStep m action).frames, isBatch frame = false) ↔ noBatch m action = true := by
  by_cases hwrite : ∃ ok, action = .act (.endWrite ok)
  · obtain ⟨ok, rfl⟩ := hwrite
    rw [frames_endWrite]
    have hnew : (∀ frame ∈ m.frames ++ (if ok = true ∧ m.world.writing.isSome then
        (m.world.writeChain.head?.map (·.frame)).toList else []), isBatch frame = false) ↔
        ∀ frame ∈ (if ok = true ∧ m.world.writing.isSome then
          (m.world.writeChain.head?.map (·.frame)).toList else []), isBatch frame = false := by
      simp only [mem_append, or_imp, forall_and]
      exact and_iff_right hbatch
    rw [hnew]
    unfold noBatch
    cases ok with
    | false => simp
    | true =>
      cases m.world.writing with
      | none => simp
      | some downstream => cases m.world.writeChain <;> simp
  · have hother : ∀ ok, action ≠ .act (.endWrite ok) := fun ok heq => hwrite ⟨ok, heq⟩
    rw [frames_step m hother]
    refine iff_of_true hbatch ?_
    unfold noBatch
    split
    · exact absurd rfl (hother true)
    · rfl

/-- In any run the sessions are isolated exactly as long as no batch with an id in it is written. -/
theorem isolated_iff (ttlMs : Int) (actions : List MuxAction) :
    Steps.Along muxStep (fun m action => RoutedAt m action ∧ Isolated (muxStep m action))
        (Multiplexer.start ttlMs) actions ↔
      Steps.Along muxStep (fun m action => noBatch m action = true)
        (Multiplexer.start ttlMs) actions := by
  refine Steps.along_iff_of_invariant
    (fun m => Forwarded m ∧ ∀ frame ∈ m.frames, isBatch frame = false) ?_ ?_ ?_
  · intro m action ⟨h, hbatch⟩ hcareful
    exact ⟨h.step action, (frames_noBatch_iff hbatch action).mpr hcareful⟩
  · intro m action ⟨h, hbatch⟩
    rw [isolated_iff_not_batch (h.step action), frames_noBatch_iff hbatch]
    exact and_iff_right (routedAt h action)
  · exact ⟨forwarded_start ttlMs, fun _ hframe => absurd hframe not_mem_nil⟩

/-- A second session's batch under the id 1, in flight for the first, is given to the downstream as
it is. -/
theorem batch_written_verbatim :
    ¬ Steps.Along muxStep (fun m action => RoutedAt m action ∧ Isolated (muxStep m action))
      (Multiplexer.start 300000)
      [.act (.setDownstream 1), .act (.addSession "s1"), .act (.addSession "s2"),
        .act (.clientFrame "s1" (ping (.num 5)) 0), .act .startWrite, .act (.endWrite true),
        .act (.clientFrame "s2" (some (.arr [.obj [("jsonrpc", .str "2.0"), ("id", .num 1),
          ("method", .str "ping")]])) 0),
        .act .startWrite, .act (.endWrite true)] := by
  intro h
  have hisolated := h.2.2.2.2.2.2.2.2.1.2
  have hbatch := hisolated.not_batch (.arr [.obj [("jsonrpc", .str "2.0"), ("id", .num 1),
    ("method", .str "ping")]]) (by decide)
  exact absurd hbatch (by decide)

end Almyty.Mcp

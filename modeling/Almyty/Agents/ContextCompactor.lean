import Almyty.Common.ConditionExpression
import Almyty.Lib.Steps

/-!
# Folding the old part of a conversation: `agent-context-compactor.helper.ts`

The model is sent the newest messages of a conversation. When they exceed a budget, the older of
them are folded into a summary, which is kept with the run and handed on to the next run of the
conversation. The window moves on with every message, so where the summary ends is found again at
each step from the messages on either side of that edge. `never_drops` says that no message is lost
on the way: at every step each message of the window is sent as it is or has been folded into the
summary, once, and the summary counts the messages folded into it.

Mirroring notes:
- A text is its UTF-16 code units.
- The call of the summarizer is a function from its prompt; it gives nothing where it throws.
-/

namespace Almyty.Agents.Compaction

open Almyty.Lib List
open Almyty.Common (Text CodeUnit ascii trim)

inductive Strategy
  | summarize
  | truncate

structure CompactionConfig where
  enabled : Bool
  maxContextTokens : Option Rat := none
  keepRecentMessages : Option Rat := none
  strategy : Option Strategy := none
  providerId : Option Text := none
  earlierToolResultChars : Option Nat := none

structure ContextSummaryCache where
  coveredCount : Nat
  text : Text
  lastKey : Option Text := none
  nextKey : Option Text := none
  foldedTotal : Option Nat := none

inductive Role
  | system
  | user
  | assistant
  | tool
  deriving DecidableEq

def Role.text : Role → Text
  | .system => ascii "system"
  | .user => ascii "user"
  | .assistant => ascii "assistant"
  | .tool => ascii "tool"

inductive Content
  | text (t : Text)
  | json (t : Text)

def Content.written : Content → Text
  | .text t => t
  | .json t => t

/-- A history entry. `messageId` and `messageAt` are what `tagStoredMessage` puts on it. -/
structure Entry where
  role : Role
  content : Content
  toolCalls : Option Text := none
  toolCallId : Option Text := none
  messageId : Option Text
  messageAt : Option Text := none

def digits (n : Nat) : Text := ascii (toString n)

def before : Text → Text → Bool
  | _, [] => false
  | [], _ :: _ => true
  | a :: s, b :: t => a < b || (a = b && before s t)

section Hash

variable (sha256 : Text → Text)

def messageKey (m : Entry) : Text :=
  match m.messageId with
  | some id => ascii "id:" ++ id
  | none =>
    sha256 (m.role.text ++ [0] ++ m.toolCallId.getD [] ++ [0] ++ m.toolCalls.getD [] ++ [0] ++
      m.content.written)

end Hash

def clipEntry (since : Text) (limit : Nat) (entry : Entry) : Entry :=
  match entry.role, entry.content, entry.messageAt with
  | .tool, .text content, some at' =>
    if content.length ≤ limit then entry
    else if before at' since then
      { entry with
        content := .text (content.take limit ++ ascii "\n[cut: " ++ digits (content.length - limit) ++
          ascii " more characters of an earlier tool result]")
        messageId := entry.messageId.filter (· ≠ []) }
    else entry
  | _, _, _ => entry

def clipEarlierToolResults (history : List Entry) (runStartedAt : Option Text)
    (limit : Option Nat) : List Entry :=
  match limit, runStartedAt with
  | some (limit + 1), some since => history.map (clipEntry since (limit + 1))
  | _, _ => history

/-- Where the summary ends in this step's window. -/
def locate (keys : List Text) (lastKey : Option Text) (nextKey : Text) : Nat :=
  let last := lastKey.filter (· ≠ [])
  let edge := last.bind fun last =>
    ((List.range keys.length).find? fun i =>
        1 ≤ i && keys[i]? = some nextKey && keys[i - 1]? = some last).or
      ((keys.findIdx? (· = last)).map (· + 1))
  edge.getD ((keys.findIdx? (· = nextKey)).getD 0)

def boundaryFrom (history : List Entry) : Nat → Nat
  | 0 => 0
  | i + 1 =>
    if (history[i + 1]?).any fun m => m.role = .user || m.role = .assistant then i + 1
    else boundaryFrom history i

/-- A fraction never meets an index. -/
def safeBoundary (history : List Entry) (target : Rat) : Nat :=
  let i := min target ((history.length : Rat) - 1)
  if i.den = 1 then boundaryFrom history i.num.toNat else 0

def estimateTokens (system : Text) (history : List Entry) : Nat :=
  let chars := system.length + (history.map fun m =>
    m.content.written.length + (m.toolCalls.getD []).length).sum
  (chars + 3) / 4

/-! ## The summarizer -/

structure ChatReply where
  content : Option Text
  cost : Rat
  totalTokens : Nat

def joinLines : List Text → Text
  | [] => []
  | [line] => line
  | line :: lines => line ++ ascii "\n" ++ joinLines lines

def transcript (toCompact : List Entry) : Text :=
  joinLines (toCompact.map fun m =>
    m.role.text ++ ascii ": " ++ m.content.written ++
      (m.toolCalls.map fun calls => ascii " toolCalls=" ++ calls).getD [])

def userPrompt (priorSummary : Text) (toCompact : List Entry) : Text :=
  (if priorSummary.isEmpty then []
    else ascii "PRIOR SUMMARY:\n" ++ priorSummary ++ ascii "\n\n") ++
    ascii "NEW MESSAGES TO FOLD IN:\n" ++ transcript toCompact

def orElse (a b : Text) : Text := if a.isEmpty then b else a

def summarize (chat : Text → Option ChatReply) (priorSummary : Text) (toCompact : List Entry)
    (config : CompactionConfig) : Option (Text × Rat × Nat) :=
  if (config.providerId.getD []).isEmpty then none
  else
    (chat (userPrompt priorSummary toCompact)).map fun response =>
      (orElse (trim (response.content.getD [])) (orElse priorSummary (ascii "[summary unavailable]")),
        response.cost, response.totalTokens)

/-! ## Compacting -/

structure CompactionResult where
  system : Text
  /-- The messages after the system message. -/
  tail : List Entry
  cost : Rat := 0
  tokens : Nat := 0
  compacted : Bool
  folded : Nat := 0

/-- What a call returns, leaves in `run.workingMemory` and has folded. -/
structure Compacted where
  result : CompactionResult
  contextSummary : Option ContextSummaryCache
  toCompact : List Entry := []

def render (system : Text) (history : List Entry) (c : ContextSummaryCache) : Text × List Entry :=
  (if c.text.isEmpty then system
    else system ++ ascii "\n\n[EARLIER CONVERSATION SUMMARY]\n" ++ c.text,
    history.drop c.coveredCount)

section Compact

variable (sha256 : Text → Text)

def located (history : List Entry) (contextSummary : Option ContextSummaryCache) :
    ContextSummaryCache :=
  let cache := contextSummary.getD { coveredCount := 0, text := [] }
  let cache := match cache.nextKey.filter (· ≠ []) with
    | some nextKey =>
      { cache with coveredCount := locate (history.map (messageKey sha256)) cache.lastKey nextKey }
    | none => cache
  if cache.coveredCount > history.length then { coveredCount := 0, text := [] } else cache

def foldText (chat : Text → Option ChatReply) (config : CompactionConfig) (cache : ContextSummaryCache)
    (toCompact : List Entry) (foldedTotal : Nat) : Text × Rat × Nat :=
  match config.strategy.getD .summarize with
  | .truncate => (ascii "[" ++ digits foldedTotal ++ ascii " earlier message(s) omitted]", 0, 0)
  | .summarize =>
    match summarize chat cache.text toCompact config with
    | some summary => summary
    | none =>
      let note := ascii "[" ++ digits toCompact.length ++ ascii " earlier message(s) omitted]"
      (if cache.text.isEmpty then note else cache.text ++ ascii "\n" ++ note, 0, 0)

def fold (chat : Text → Option ChatReply) (config : CompactionConfig) (system : Text)
    (history : List Entry) (contextSummary : Option ContextSummaryCache) : Compacted :=
  let budget := config.maxContextTokens.getD 12000
  let keepRecent := max 1 (config.keepRecentMessages.getD 8)
  let cache := located sha256 history contextSummary
  let (sys, tail) := render system history cache
  let asItIs : Compacted := {
    result := { system := sys, tail, compacted := !cache.text.isEmpty }
    contextSummary }
  if (estimateTokens sys tail : Rat) ≤ budget then asItIs
  else
    let boundary := safeBoundary history ((history.length : Rat) - keepRecent)
    if boundary ≤ cache.coveredCount then asItIs
    else
      let toCompact := (history.take boundary).drop cache.coveredCount
      let foldedTotal := cache.foldedTotal.getD 0 + toCompact.length
      let (newText, cost, tokens) := foldText chat config cache toCompact foldedTotal
      let newCache : ContextSummaryCache := {
        coveredCount := boundary
        text := newText
        lastKey := (history[boundary - 1]?).map (messageKey sha256)
        nextKey := (history[boundary]?).map (messageKey sha256)
        foldedTotal := some foldedTotal }
      let (sys, tail) := render system history newCache
      { result := { system := sys, tail, cost, tokens, compacted := true, folded := toCompact.length }
        contextSummary := some newCache
        toCompact }

def compact (chat : Text → Option ChatReply) (config : CompactionConfig) (system : Text)
    (history : List Entry) (runCreatedAt : Option Text)
    (contextSummary : Option ContextSummaryCache) : Compacted :=
  if !config.enabled || history.isEmpty then
    { result := { system, tail := history, compacted := false }, contextSummary }
  else
    fold sha256 chat config system
      (clipEarlierToolResults history runCreatedAt config.earlierToolResultChars) contextSummary

end Compact

/-! ## The threads of a conversation -/

/-- The messages carry ids, and no two the same. -/
def Tagged (conversation : List Entry) : Prop :=
  (∀ m ∈ conversation, m.messageId ≠ none ∧ m.messageId ≠ some []) ∧
    (conversation.map Entry.messageId).Nodup

instance (conversation : List Entry) : Decidable (Tagged conversation) :=
  inferInstanceAs (Decidable (_ ∧ _))

structure Thread (ρ : Type) where
  conversation : List Entry
  contextSummary : ρ → Option ContextSummaryCache
  folded : ρ → List (List Entry)
  left : List (ContextSummaryCache × List (List Entry))

structure Call where
  chat : Text → Option ChatReply
  config : CompactionConfig
  system : Text
  runCreatedAt : Option Text

inductive Action (ρ : Type)
  | say (messages : List Entry)
  /-- `carriedContextSummary`, where it finds a summary that a call has left. -/
  | carry (run : ρ) (i : Nat)
  | compact (run : ρ) (call : Call)

section Threads

variable {ρ : Type} [DecidableEq ρ] (sha256 : Text → Text) (size : Nat)

/-- The last messages of the conversation. -/
def Thread.window (t : Thread ρ) : List Entry := t.conversation.drop (t.conversation.length - size)

def Thread.compactRun (t : Thread ρ) (run : ρ) (call : Call) : Compacted :=
  compact sha256 call.chat call.config call.system (t.window size) call.runCreatedAt
    (t.contextSummary run)

def carries (summary : ContextSummaryCache) : Bool :=
  !(summary.nextKey.getD []).isEmpty && !summary.text.isEmpty

def step (t : Thread ρ) : Action ρ → Thread ρ
  | .say messages =>
    if Tagged (t.conversation ++ messages) then
      { t with conversation := t.conversation ++ messages }
    else t
  | .carry run i =>
    match t.contextSummary run, t.left[i]? with
    | none, some (summary, folded) =>
      if carries summary then
        { t with
          contextSummary := Function.update t.contextSummary run (some summary)
          folded := Function.update t.folded run folded }
      else t
    | _, _ => t
  | .compact run call =>
    let out := t.compactRun sha256 size run call
    let folded := t.folded run ++ [out.toCompact]
    { t with
      contextSummary := Function.update t.contextSummary run out.contextSummary
      folded := Function.update t.folded run folded
      left := t.left ++ out.contextSummary.toList.map fun summary => (summary, folded) }

def Thread.init : Thread ρ := ⟨[], fun _ => none, fun _ => [], []⟩

/-- Each message of the window is sent or was folded, once; and the summary counts what was
folded into it. -/
def Thread.Kept (t : Thread ρ) : Action ρ → Prop
  | .compact run call =>
    let out := t.compactRun sha256 size run call
    let folded := (t.folded run ++ [out.toCompact]).flatten.map Entry.messageId
    (∀ m ∈ t.window size,
      (∃ sent ∈ out.result.tail, sent.messageId = m.messageId ∧
        (call.config.earlierToolResultChars = none → sent = m)) ∨
      folded.count m.messageId = 1) ∧
    folded.Nodup ∧
    ∀ cache, out.contextSummary = some cache → cache.foldedTotal = some folded.dedup.length
  | _ => True

end Threads

/-! ## Keys -/

section Keys

variable {sha256 : Text → Text}

theorem messageKey_eq {m : Entry} {id : Text} (h : m.messageId = some id) :
    messageKey sha256 m = ascii "id:" ++ id := by
  rw [messageKey, h]

theorem messageKey_ne_nil {m : Entry} (h : m.messageId ≠ none) : messageKey sha256 m ≠ [] := by
  obtain ⟨id, hid⟩ := Option.ne_none_iff_exists'.mp h
  rw [messageKey_eq hid]
  have hne : ascii "id:" ≠ [] := by decide
  exact fun hnil => hne (append_eq_nil_iff.mp hnil).1

theorem messageKey_congr {m n : Entry} (hm : m.messageId ≠ none)
    (h : m.messageId = n.messageId) : messageKey sha256 m = messageKey sha256 n := by
  obtain ⟨id, hid⟩ := Option.ne_none_iff_exists'.mp hm
  rw [messageKey_eq hid, messageKey_eq (h.symm.trans hid)]

theorem messageKey_inj {m n : Entry} (hm : m.messageId ≠ none) (hn : n.messageId ≠ none)
    (h : messageKey sha256 m = messageKey sha256 n) : m.messageId = n.messageId := by
  obtain ⟨id, hid⟩ := Option.ne_none_iff_exists'.mp hm
  obtain ⟨id', hid'⟩ := Option.ne_none_iff_exists'.mp hn
  rw [messageKey_eq hid, messageKey_eq hid', append_right_inj] at h
  rw [hid, hid', h]

theorem clipEntry_messageId (since : Text) (limit : Nat) {m : Entry} (h : m.messageId ≠ some []) :
    (clipEntry since limit m).messageId = m.messageId := by
  have hfilter : m.messageId.filter (· ≠ []) = m.messageId := by
    cases hid : m.messageId with
    | none => rfl
    | some id =>
      have hne : id ≠ [] := fun hnil => h (by rw [hid, hnil])
      simp [hne]
  rw [clipEntry]
  split
  next =>
    split
    next => rfl
    next =>
      split
      next => exact hfilter
      next => rfl
  next => rfl

theorem clipEarlierToolResults_messageId {history : List Entry}
    (h : ∀ m ∈ history, m.messageId ≠ some []) (runStartedAt : Option Text) (limit : Option Nat) :
    (clipEarlierToolResults history runStartedAt limit).map Entry.messageId =
      history.map Entry.messageId := by
  unfold clipEarlierToolResults
  split
  next =>
    rw [map_map]
    exact map_congr_left fun m hm => clipEntry_messageId _ _ (h m hm)
  next => rfl

end Keys

/-! ## Finding the edge -/

theorem map_messageKey_congr (sha256 : Text → Text) {history window : List Entry}
    (htagged : ∀ m ∈ window, m.messageId ≠ none)
    (hids : history.map Entry.messageId = window.map Entry.messageId) :
    history.map (messageKey sha256) = window.map (messageKey sha256) := by
  induction window generalizing history with
  | nil => rw [map_eq_nil_iff.mp hids, map_nil]
  | cons n window ih =>
    cases history with
    | nil => cases hids
    | cons m history =>
      obtain ⟨hid, hrest⟩ := cons_eq_cons.mp hids
      obtain ⟨hn, hwindow⟩ := forall_mem_cons.mp htagged
      rw [map_cons, map_cons, ih hwindow hrest, ← messageKey_congr hn hid.symm]


variable {keys : List Text}

theorem findIdx?_eq_of_nodup {key : Text} {i : Nat} (hnd : keys.Nodup) (h : keys[i]? = some key) :
    keys.findIdx? (· = key) = some i := by
  obtain ⟨hi, rfl⟩ := List.getElem?_eq_some_iff.mp h
  rw [List.findIdx?_eq_some_iff_getElem]
  refine ⟨hi, by simp, ?_⟩
  intro j hj
  have hne : keys[j] ≠ keys[i] := fun heq => by
    have hij := (hnd.getElem_inj_iff).mp heq
    omega
  simpa using hne

theorem findIdx?_eq_none_of_not_mem {key : Text} (h : key ∉ keys) :
    keys.findIdx? (· = key) = none := by
  rw [List.findIdx?_eq_none_iff]
  intro x hx
  simp only [decide_eq_false_iff_not]
  exact fun heq => h (heq ▸ hx)

theorem not_mem_drop_of_nodup {key : Text} {i start : Nat} (hnd : keys.Nodup)
    (h : keys[i]? = some key) (hlt : i < start) : key ∉ keys.drop start := by
  intro hmem
  obtain ⟨j, hj⟩ := List.mem_iff_getElem?.mp hmem
  rw [List.getElem?_drop] at hj
  have hij := (List.getElem?_inj (List.getElem?_eq_some_iff.mp h).1 hnd).mp (h.trans hj.symm)
  omega

theorem locate_eq (hnd : keys.Nodup) (start : Nat) {edge : Nat} {last next : Text} (hpos : 0 < edge)
    (hlast : keys[edge - 1]? = some last) (hnext : keys[edge]? = some next) (hne : last ≠ []) :
    locate (keys.drop start) (some last) next = edge - start := by
  have hdrop := hnd.sublist (drop_sublist start keys)
  have hfilter : (some last).filter (· ≠ []) = some last := by simp [hne]
  rw [locate, hfilter, Option.bind_some]
  by_cases hin : start < edge
  · -- both sides of the edge are in the window, and keys occur once
    have hat : (keys.drop start)[edge - start]? = some next := by
      rw [List.getElem?_drop, ← hnext]
      congr 1
      omega
    have hbefore : (keys.drop start)[edge - start - 1]? = some last := by
      rw [List.getElem?_drop, ← hlast]
      congr 1
      omega
    have hlt := (List.getElem?_eq_some_iff.mp hat).1
    have hfound : ((List.range (keys.drop start).length).find? fun i =>
        1 ≤ i && (keys.drop start)[i]? = some next && (keys.drop start)[i - 1]? = some last) =
        some (edge - start) := by
      rw [List.find?_range_eq_some]
      refine ⟨?_, mem_range.mpr hlt, ?_⟩
      · simp only [hat, hbefore]
        simp
        omega
      · intro j hj
        have hnot : (keys.drop start)[j]? ≠ some next := fun hjat => by
          have hij := (List.getElem?_inj (List.getElem?_eq_some_iff.mp hjat).1 hdrop).mp
            (hjat.trans hat.symm)
          omega
        rw [decide_eq_false hnot, Bool.and_false, Bool.false_and]
        rfl
    rw [hfound]
    rfl
  · -- the window begins at the edge or past it: the last message that was folded has left it
    have hgone : last ∉ keys.drop start := not_mem_drop_of_nodup hnd hlast (by omega)
    have hnone : ((List.range (keys.drop start).length).find? fun i =>
        1 ≤ i && (keys.drop start)[i]? = some next && (keys.drop start)[i - 1]? = some last) =
        none := by
      rw [List.find?_eq_none]
      intro i _ hi
      rw [Bool.and_eq_true] at hi
      exact hgone (List.mem_of_getElem? (of_decide_eq_true hi.2))
    have hfirst : ((keys.drop start).findIdx? (· = next)).getD 0 = 0 := by
      by_cases hstart : edge = start
      · have hat : (keys.drop start)[0]? = some next := by
          rw [List.getElem?_drop, Nat.add_zero, ← hstart, hnext]
        rw [findIdx?_eq_of_nodup hdrop hat]
        rfl
      · rw [findIdx?_eq_none_of_not_mem (not_mem_drop_of_nodup hnd hnext (by omega))]
        rfl
    rw [hnone, findIdx?_eq_none_of_not_mem hgone, Option.map_none, Option.or_none, Option.getD_none,
      hfirst]
    omega

/-! ## What a call does -/

section Fold

variable {sha256 : Text → Text}

theorem boundaryFrom_le (history : List Entry) (i : Nat) : boundaryFrom history i ≤ i := by
  induction i with
  | zero => exact Nat.le_refl 0
  | succ i ih =>
    rw [boundaryFrom]
    split
    next => exact Nat.le_refl _
    next => omega

theorem safeBoundary_lt {history : List Entry} (hne : history ≠ []) (target : Rat) :
    safeBoundary history target < history.length := by
  have hpos := length_pos_iff.mpr hne
  rw [safeBoundary]
  split
  next hint =>
    refine Nat.lt_of_le_of_lt (boundaryFrom_le _ _) ?_
    have hle : min target ((history.length : Rat) - 1) ≤ (history.length : Rat) - 1 :=
      min_le_right _ _
    generalize min target ((history.length : Rat) - 1) = i at hint hle ⊢
    have hi : i = (i.num : Rat) := ((Rat.den_eq_one_iff i).mp hint).symm
    rw [hi] at hle
    have hcast : ((i.num + 1 : Int) : Rat) ≤ ((history.length : Int) : Rat) := by
      push_cast
      linarith
    have hnum : i.num + 1 ≤ (history.length : Int) := by exact_mod_cast hcast
    omega
  next => exact hpos

theorem fold_cases {chat : Text → Option ChatReply} {config : CompactionConfig} {system : Text}
    {history : List Entry} (hne : history ≠ []) {contextSummary : Option ContextSummaryCache}
    {cache : ContextSummaryCache} (hcache : located sha256 history contextSummary = cache)
    {out : Compacted} (hout : fold sha256 chat config system history contextSummary = out) :
    (out.result.tail = history.drop cache.coveredCount ∧ out.contextSummary = contextSummary ∧
      out.toCompact = []) ∨
    ∃ boundary, cache.coveredCount < boundary ∧ boundary < history.length ∧
      out.result.tail = history.drop boundary ∧
      out.toCompact = (history.take boundary).drop cache.coveredCount ∧
      ∃ summary, out.contextSummary = some summary ∧
        summary.lastKey = (history[boundary - 1]?).map (messageKey sha256) ∧
        summary.nextKey = (history[boundary]?).map (messageKey sha256) ∧
        summary.foldedTotal = some (cache.foldedTotal.getD 0 + out.toCompact.length) := by
  rw [fold, hcache] at hout
  dsimp only at hout
  by_cases hbudget : (estimateTokens (render system history cache).1
      (render system history cache).2 : Rat) ≤ config.maxContextTokens.getD 12000
  · rw [if_pos hbudget] at hout
    subst hout
    exact .inl ⟨rfl, rfl, rfl⟩
  · rw [if_neg hbudget] at hout
    by_cases hboundary : safeBoundary history
        ((history.length : Rat) - max 1 (config.keepRecentMessages.getD 8)) ≤ cache.coveredCount
    · rw [if_pos hboundary] at hout
      subst hout
      exact .inl ⟨rfl, rfl, rfl⟩
    · rw [if_neg hboundary] at hout
      subst hout
      exact .inr ⟨_, Nat.lt_of_not_le hboundary, safeBoundary_lt hne _, rfl, rfl, _, rfl, rfl, rfl,
        rfl⟩

end Fold

/-! ## What is covered -/

structure Folded (conversation : List Entry) (start edge : Nat) (folded : List Entry) :
    Prop where
  before : ∀ m ∈ folded, m.messageId ∈ (conversation.take edge).map Entry.messageId
  within : ∀ m ∈ (conversation.take edge).drop start, m.messageId ∈ folded.map Entry.messageId
  nodup : (folded.map Entry.messageId).Nodup

structure Covers (sha256 : Text → Text) (conversation : List Entry) (start edge : Nat)
    (cache : ContextSummaryCache) (folded : List Entry) : Prop
    extends Folded conversation start edge folded where
  pos : 0 < edge
  lt : edge < conversation.length
  last : cache.lastKey = (conversation[edge - 1]?).map (messageKey sha256)
  next : cache.nextKey = (conversation[edge]?).map (messageKey sha256)
  total : cache.foldedTotal = some folded.length

section Covers

variable {sha256 : Text → Text} {conversation : List Entry} {start edge : Nat}
  {cache : ContextSummaryCache} {folded : List Entry}

theorem Covers.grow (h : Covers sha256 conversation start edge cache folded)
    (messages : List Entry) {start' : Nat} (hstart : start ≤ start') :
    Covers sha256 (conversation ++ messages) start' edge cache folded := by
  have hlt := h.lt
  have htake : (conversation ++ messages).take edge = conversation.take edge :=
    take_append_of_le_length (by omega)
  refine ⟨⟨?_, ?_, h.nodup⟩, h.pos, ?_, ?_, ?_, h.total⟩
  · rw [htake]
    exact h.before
  · intro m hm
    rw [htake] at hm
    exact h.within m ((drop_sublist_drop_left _ hstart).subset hm)
  · rw [length_append]
    omega
  · rw [h.last, List.getElem?_append_left (by omega)]
  · rw [h.next, List.getElem?_append_left hlt]

theorem located_none (history : List Entry) :
    located sha256 history none = { coveredCount := 0, text := [] } := by
  rw [located]
  exact if_neg (Nat.not_lt_zero _)

theorem Tagged.nodup_keys (sha256 : Text → Text) (h : Tagged conversation) :
    (conversation.map (messageKey sha256)).Nodup := by
  refine List.Nodup.map_on ?_ h.2.of_map
  intro m hm n hn hkey
  exact inj_on_of_nodup_map h.2 hm hn (messageKey_inj (h.1 m hm).1 (h.1 n hn).1 hkey)

theorem located_some (htagged : Tagged conversation)
    (h : Covers sha256 conversation start edge cache folded) {history : List Entry}
    (hkeys : history.map (messageKey sha256) =
      (conversation.drop start).map (messageKey sha256)) :
    located sha256 history (some cache) = { cache with coveredCount := edge - start } := by
  have hpos := h.pos
  have hlt := h.lt
  have hlen : history.length = conversation.length - start := by
    have hlen := congrArg List.length hkeys
    rwa [length_map, length_map, length_drop] at hlen
  have hlast : cache.lastKey = some (messageKey sha256 conversation[edge - 1]) := by
    rw [h.last, List.getElem?_eq_getElem (by omega), Option.map_some]
  have hnext : cache.nextKey = some (messageKey sha256 conversation[edge]) := by
    rw [h.next, List.getElem?_eq_getElem hlt, Option.map_some]
  have hlastNe : messageKey sha256 conversation[edge - 1] ≠ [] :=
    messageKey_ne_nil (htagged.1 _ (getElem_mem _)).1
  have hnextNe : messageKey sha256 conversation[edge] ≠ [] :=
    messageKey_ne_nil (htagged.1 _ (getElem_mem _)).1
  have hfilter : (some (messageKey sha256 conversation[edge])).filter (· ≠ []) =
      some (messageKey sha256 conversation[edge]) := by simp [hnextNe]
  have hlastAt : (conversation.map (messageKey sha256))[edge - 1]? =
      some (messageKey sha256 conversation[edge - 1]) := by
    rw [List.getElem?_map, List.getElem?_eq_getElem (by omega), Option.map_some]
  have hnextAt : (conversation.map (messageKey sha256))[edge]? =
      some (messageKey sha256 conversation[edge]) := by
    rw [List.getElem?_map, List.getElem?_eq_getElem hlt, Option.map_some]
  have hlocate := locate_eq (htagged.nodup_keys sha256) start hpos hlastAt hnextAt hlastNe
  rw [located, Option.getD_some]
  simp only [hnext, hfilter, hlast, hkeys, map_drop, hlocate]
  exact if_neg (by omega)

/-! ### A fold keeps it -/

theorem Folded.none (conversation : List Entry) (start : Nat) (folded : List Entry)
    (h : folded = []) : Folded conversation start 0 folded := by
  refine ⟨?_, ?_, ?_⟩
  · intro m hm
    rw [h] at hm
    cases hm
  · intro m hm
    simp at hm
  · rw [h]
    exact nodup_nil

theorem Folded.advance (htagged : Tagged conversation)
    (h : Folded conversation start edge folded) {boundary : Nat}
    (hboundary : edge - start < boundary) (slice : List Entry) (hslice : slice.map Entry.messageId =
      (((conversation.drop start).take boundary).drop (edge - start)).map Entry.messageId) :
    Folded conversation start (start + boundary) (folded ++ slice) := by
  have hparts : ((conversation.drop start).take boundary).drop (edge - start) =
      (conversation.take (start + boundary)).drop (start + (edge - start)) := by
    rw [take_drop, drop_drop]
  have hfront : conversation.take edge = (conversation.take (start + boundary)).take edge := by
    rw [take_take]
    congr 1
    omega
  rw [hparts] at hslice
  refine ⟨?_, ?_, ?_⟩
  · intro m hm
    rcases mem_append.mp hm with hm | hm
    · have hmem := h.before m hm
      rw [hfront] at hmem
      exact map_subset _ (take_subset _ _) hmem
    · have hmem := mem_map_of_mem (f := Entry.messageId) hm
      rw [hslice] at hmem
      exact map_subset _ (drop_subset _ _) hmem
  · intro m hm
    rw [map_append, hslice, mem_append]
    rw [← take_append_drop (edge - start) ((conversation.take _).drop start)] at hm
    rcases mem_append.mp hm with hm | hm
    · left
      -- before the old edge: folded already, or there is nothing before it in the window
      by_cases hstart : start ≤ edge
      · refine h.within m ?_
        rw [take_drop] at hm
        rw [hfront]
        have hedge : start + (edge - start) = edge := by omega
        rwa [hedge] at hm
      · have hzero : edge - start = 0 := by omega
        rw [hzero, take_zero] at hm
        cases hm
    · right
      rw [drop_drop] at hm
      exact mem_map_of_mem hm
  · have hids := htagged.2
    rw [map_append, hslice, nodup_append']
    refine ⟨h.nodup, hids.sublist (((drop_sublist _ _).trans (take_sublist _ _)).map _), ?_⟩
    -- what was folded is before the old edge, and the slice behind it
    intro id hold hnew
    obtain ⟨m, hm, rfl⟩ := mem_map.mp hold
    have hbefore := h.before m hm
    have hafter : m.messageId ∈ (conversation.drop edge).map Entry.messageId := by
      refine map_subset _ ?_ hnew
      refine List.Subset.trans ?_ (drop_subset_drop_left conversation
        (show edge ≤ start + (edge - start) by omega))
      exact ((take_sublist _ _).drop _).subset
    rw [map_take] at hbefore
    rw [map_drop] at hafter
    exact disjoint_take_drop hids (Nat.le_refl edge) hbefore hafter

theorem Folded.sent_or_folded (h : Folded conversation start edge folded) {history : List Entry}
    (hids : history.map Entry.messageId = (conversation.drop start).map Entry.messageId)
    {limit : Option Nat} (hsame : limit = .none → history = conversation.drop start)
    {m : Entry} (hm : m ∈ conversation.drop start) :
    (∃ sent ∈ history.drop (edge - start), sent.messageId = m.messageId ∧
        (limit = .none → sent = m)) ∨
      (folded.map Entry.messageId).count m.messageId = 1 := by
  rw [← take_append_drop (edge - start) (conversation.drop start)] at hm
  rcases mem_append.mp hm with hm | hm
  · right
    refine count_eq_one_of_mem h.nodup (h.within m ?_)
    by_cases hstart : start ≤ edge
    · rw [take_drop] at hm
      have hedge : start + (edge - start) = edge := by omega
      rwa [hedge] at hm
    · have hzero : edge - start = 0 := by omega
      rw [hzero, take_zero] at hm
      cases hm
  · left
    by_cases hlimit : limit = .none
    · exact ⟨m, hsame hlimit ▸ hm, rfl, fun _ => rfl⟩
    · have hmem := mem_map_of_mem (f := Entry.messageId) hm
      rw [map_drop, ← hids, ← map_drop] at hmem
      obtain ⟨sent, hsent, hid⟩ := mem_map.mp hmem
      exact ⟨sent, hsent, hid, fun h => absurd h hlimit⟩

end Covers

/-! ## Runs of a conversation -/

section Runs

variable {ρ : Type} {sha256 : Text → Text} {size : Nat} {t : Thread ρ}

def Holds (sha256 : Text → Text) (size : Nat) (conversation folded : List Entry) :
    Option ContextSummaryCache → Prop
  | none => folded = []
  | some cache => ∃ edge, Covers sha256 conversation (conversation.length - size) edge cache folded

structure Thread.Good (sha256 : Text → Text) (size : Nat) (t : Thread ρ) : Prop where
  tagged : Tagged t.conversation
  holds : ∀ run, Holds sha256 size t.conversation (t.folded run).flatten (t.contextSummary run)
  left : ∀ entry ∈ t.left, Holds sha256 size t.conversation entry.2.flatten (some entry.1)

theorem Thread.Good.located (h : t.Good sha256 size) (run : ρ) {history : List Entry}
    (hkeys : history.map (messageKey sha256) = (t.window size).map (messageKey sha256)) :
    ∃ edge cache, Compaction.located sha256 history (t.contextSummary run) = cache ∧
      Folded t.conversation (t.conversation.length - size) edge (t.folded run).flatten ∧
      cache.coveredCount = edge - (t.conversation.length - size) ∧
      cache.foldedTotal.getD 0 = (t.folded run).flatten.length := by
  have hholds := h.holds run
  cases hsummary : t.contextSummary run with
  | none =>
    rw [hsummary] at hholds
    have hnil : (t.folded run).flatten = [] := hholds
    refine ⟨0, _, located_none history, Folded.none _ _ _ hnil, (Nat.zero_sub _).symm, ?_⟩
    rw [hnil]
    rfl
  | some cache =>
    rw [hsummary] at hholds
    obtain ⟨edge, hcovers⟩ := hholds
    refine ⟨edge, _, located_some h.tagged hcovers hkeys, hcovers.toFolded, rfl, ?_⟩
    rw [hcovers.total]
    rfl

theorem Thread.Good.compact (h : t.Good sha256 size) (run : ρ) (call : Call) {out : Compacted}
    (hout : t.compactRun sha256 size run call = out) :
    Holds sha256 size t.conversation ((t.folded run).flatten ++ out.toCompact)
        out.contextSummary ∧
      ∀ m ∈ t.window size,
        (∃ sent ∈ out.result.tail, sent.messageId = m.messageId ∧
          (call.config.earlierToolResultChars = none → sent = m)) ∨
        (((t.folded run).flatten ++ out.toCompact).map Entry.messageId).count m.messageId = 1 := by
  rw [Thread.compactRun, Compaction.compact] at hout
  by_cases hnoop : (!call.config.enabled || (t.window size).isEmpty) = true
  · rw [if_pos hnoop] at hout
    subst hout
    rw [append_nil]
    exact ⟨h.holds run, fun m hm => .inl ⟨m, hm, rfl, fun _ => rfl⟩⟩
  · rw [if_neg hnoop] at hout
    generalize hhistory : clipEarlierToolResults (t.window size) call.runCreatedAt
      call.config.earlierToolResultChars = history at hout
    have htagged : ∀ m ∈ t.window size, m.messageId ≠ none ∧ m.messageId ≠ some [] :=
      fun m hm => h.tagged.1 m (drop_subset _ _ hm)
    have hids : history.map Entry.messageId = (t.window size).map Entry.messageId := by
      rw [← hhistory]
      exact clipEarlierToolResults_messageId (fun m hm => (htagged m hm).2) _ _
    have hkeys := map_messageKey_congr sha256 (fun m hm => (htagged m hm).1) hids
    have hsame : call.config.earlierToolResultChars = none → history = t.window size := by
      intro hnone
      rw [← hhistory, hnone]
      rfl
    have hlen := congrArg List.length hids
    rw [length_map, length_map, Thread.window, length_drop] at hlen
    have hne : history ≠ [] := by
      intro hnil
      rw [hnil, map_nil, eq_comm, map_eq_nil_iff] at hids
      simp [hids] at hnoop
    obtain ⟨edge, cache, hlocated, hfolded, hcount, htotal⟩ := h.located run hkeys
    rcases fold_cases hne hlocated hout with ⟨htail, hsummary, hslice⟩ |
      ⟨boundary, hboundary, hlt, htail, hslice, summary, hsummary, hlast, hnext, hfoldedTotal⟩
    · rw [hslice, hsummary, htail, hcount, append_nil]
      exact ⟨h.holds run, fun m hm => hfolded.sent_or_folded hids hsame hm⟩
    · rw [hcount] at hboundary hslice
      have hadvanced := hfolded.advance h.tagged hboundary out.toCompact (by
        rw [hslice, map_drop, map_take, hids, Thread.window, ← map_take, ← map_drop])
      have hedge : t.conversation.length - size + boundary - (t.conversation.length - size) =
        boundary := by omega
      refine ⟨?_, ?_⟩
      · rw [hsummary]
        refine ⟨t.conversation.length - size + boundary, hadvanced, by omega, by omega, ?_, ?_, ?_⟩
        · rw [hlast, ← List.getElem?_map, hkeys, List.getElem?_map, Thread.window,
            List.getElem?_drop]
          congr 2
          omega
        · rw [hnext, ← List.getElem?_map, hkeys, List.getElem?_map, Thread.window,
            List.getElem?_drop]
        · rw [hfoldedTotal, htotal, length_append]
      · rw [htail, ← hedge]
        exact fun m hm => hadvanced.sent_or_folded hids hsame hm

variable {summary : Option ContextSummaryCache}

theorem Holds.nodup {conversation folded : List Entry}
    (h : Holds sha256 size conversation folded summary) :
    (folded.map Entry.messageId).Nodup := by
  cases summary with
  | none =>
    rw [show folded = [] from h]
    exact nodup_nil
  | some cache =>
    obtain ⟨edge, hcovers⟩ := h
    exact hcovers.nodup

theorem Holds.total {conversation folded : List Entry} {cache : ContextSummaryCache}
    (h : Holds sha256 size conversation folded (some cache)) :
    cache.foldedTotal = some (folded.map Entry.messageId).dedup.length := by
  obtain ⟨edge, hcovers⟩ := h
  rw [hcovers.total, hcovers.nodup.dedup, length_map]

theorem Holds.grow {conversation folded : List Entry}
    (h : Holds sha256 size conversation folded summary) (messages : List Entry) :
    Holds sha256 size (conversation ++ messages) folded summary := by
  cases summary with
  | none => exact h
  | some cache =>
    obtain ⟨edge, hcovers⟩ := h
    refine ⟨edge, hcovers.grow messages ?_⟩
    rw [length_append]
    omega

theorem Thread.Good.kept (h : t.Good sha256 size) (action : Action ρ) :
    t.Kept sha256 size action := by
  cases action with
  | say | carry => trivial
  | compact run call =>
    obtain ⟨hholds, hsent⟩ := h.compact run call rfl
    show _ ∧ _ ∧ _
    rw [flatten_append, flatten_singleton]
    refine ⟨hsent, hholds.nodup, ?_⟩
    intro cache hcache
    rw [hcache] at hholds
    exact hholds.total

variable [DecidableEq ρ]

theorem Thread.Good.holds_update (h : t.Good sha256 size) (run : ρ) {folded : List (List Entry)}
    (hrun : Holds sha256 size t.conversation folded.flatten summary) (run' : ρ) :
    Holds sha256 size t.conversation (Function.update t.folded run folded run').flatten
      (Function.update t.contextSummary run summary run') := by
  by_cases hsame : run' = run
  · subst hsame
    rw [Function.update_self, Function.update_self]
    exact hrun
  · rw [Function.update_of_ne hsame, Function.update_of_ne hsame]
    exact h.holds run'

theorem Thread.Good.step (h : t.Good sha256 size) (action : Action ρ) :
    (step sha256 size t action).Good sha256 size := by
  cases action with
  | say messages =>
    rw [Compaction.step]
    split
    next htagged =>
      exact ⟨htagged, fun run => (h.holds run).grow messages,
        fun entry hentry => (h.left entry hentry).grow messages⟩
    next => exact h
  | carry run i =>
    rw [Compaction.step]
    split
    next summary folded _ hleft =>
      split
      next =>
        -- the run takes over what another one has left
        exact ⟨h.tagged, h.holds_update run (h.left _ (List.mem_of_getElem? hleft)), h.left⟩
      next => exact h
    next => exact h
  | compact run call =>
    have hcompact := (h.compact run call rfl).1
    rw [← flatten_concat] at hcompact
    refine ⟨h.tagged, h.holds_update run hcompact, ?_⟩
    intro entry hentry
    rcases mem_append.mp hentry with hentry | hentry
    · exact h.left entry hentry
    · obtain ⟨summary, hsummary, rfl⟩ := mem_map.mp hentry
      rwa [Option.mem_toList.mp hsummary] at hcompact

theorem never_drops (sha256 : Text → Text) (size : Nat) (actions : List (Action ρ)) :
    Steps.Along (Compaction.step sha256 size) (Thread.Kept sha256 size) Thread.init actions := by
  refine Steps.along_of_invariant (Thread.Good sha256 size) (P := fun _ _ => True)
    (fun t action h _ => h.step action) (fun t action h _ => h.kept action) ?_ ?_
  · exact ⟨⟨by simp [Thread.init], nodup_nil⟩, fun _ => rfl, by simp [Thread.init]⟩
  · rw [Steps.along_iff]
    exact fun _ _ _ _ => trivial

end Runs

end Almyty.Agents.Compaction

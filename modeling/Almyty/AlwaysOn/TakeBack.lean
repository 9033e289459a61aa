import Almyty.AlwaysOn.Saves
import Almyty.Lib.Slots
import Almyty.Lib.Steps

/-!
# Back on when there is room

`resumeWithinCapacity` reads the agents of an organization, sorts out which of those that were
paused for want of room come back, and saves them one by one. `takeBack` is the choice: an agent
without a hosted home always comes back, the others as far as there are places, the oldest pause
first.

`resume_oldest_first` and `resume_leaves_no_room` say what a call does that is left to itself:
after any number of its saves nobody is on before an older pause that is to come back, and once it
has returned nobody waits while there is room.
-/

namespace Almyty.AlwaysOn

open Almyty.Lib List Option
open Almyty.Agents (Uuid)

/-- How many places of the plan are taken. -/
def places (agents : List (Uuid × Agent)) (organizationId : Uuid) : Nat :=
  (agents.filter (·.2.hostedOn organizationId)).length

def World.back (w : World) (organizationId : Uuid) : List (Uuid × Agent) :=
  takeBack (w.room organizationId) (w.waiting organizationId)

def World.isOn (w : World) (id : Uuid) : Bool := (w.agents.lookup id).any (·.enabled)

variable {w : World} {out : Outside} {agents : List (Uuid × Agent)} {organizationId id : Uuid}
  {included : Nat} {agent : Agent} {i : Nat}

/-! ## Places -/

theorem places_put (agents : List (Uuid × Agent)) (organizationId id : Uuid) (agent : Agent) :
    places (Assoc.put agents id agent) organizationId +
        (if (agents.lookup id).any (·.hostedOn organizationId) then 1 else 0) =
      places agents organizationId + if agent.hostedOn organizationId then 1 else 0 :=
  Assoc.length_filter_put (fun agent : Agent => agent.hostedOn organizationId) agents id agent

theorem resumed_hostedOn (agent : Agent) (now : Int) (organizationId : Uuid) :
    (agent.resumed now).hostedOn organizationId =
      (agent.runsIn organizationId && agent.hosted) := by
  unfold Agent.hostedOn Agent.resumed Agent.updated Agent.enabled Agent.hosted
  cases hon : agent.alwaysOn with
  | none => simp
  | some config =>
    show (agent.runsIn organizationId && true && hasHostedHome config) = _
    simp

/-! ## Taking agents back -/

theorem takeBack_sublist (room : Option Nat) (waiting : List (Uuid × Agent)) :
    (takeBack room waiting).Sublist waiting := by
  fun_induction takeBack room waiting with
  | case1 => exact List.Sublist.refl _
  | case2 room entry waiting _ ih | case3 entry waiting _ ih | case5 entry waiting _ room ih =>
    exact ih.cons_cons entry
  | case4 entry waiting _ ih => exact ih.cons entry

theorem takeBack_hosted_le (room : Nat) (waiting : List (Uuid × Agent)) :
    ((takeBack (some room) waiting).filter (·.2.hosted)).length ≤ room := by
  induction waiting generalizing room with
  | nil => exact Nat.zero_le _
  | cons entry waiting ih =>
    unfold takeBack
    cases hhosted : entry.2.hosted with
    | false => simpa [hhosted] using ih room
    | true =>
      cases room with
      | zero => exact ih 0
      | succ room => simpa [hhosted] using ih room

variable {entry : Uuid × Agent}

theorem takeBack_left {room : Option Nat} {waiting : List (Uuid × Agent)} (hmem : entry ∈ waiting)
    (hleft : entry ∉ takeBack room waiting) :
    entry.2.hosted = true ∧ room = some ((takeBack room waiting).filter (·.2.hosted)).length := by
  induction waiting generalizing room with
  | nil => cases hmem
  | cons head waiting ih =>
    unfold takeBack at hleft ⊢
    cases hhosted : head.2.hosted with
    | false =>
      simp only [hhosted, Bool.not_false, if_true, mem_cons, not_or] at hleft
      have hrest := (mem_cons.mp hmem).resolve_left hleft.1
      simpa [hhosted] using ih hrest hleft.2
    | true =>
      simp only [hhosted, Bool.not_true, Bool.false_eq_true, if_false] at hleft ⊢
      match room with
      | none =>
        simp only [mem_cons, not_or] at hleft
        have hrest := (mem_cons.mp hmem).resolve_left hleft.1
        exact absurd (ih hrest hleft.2).2 nofun
      | some (room + 1) =>
        simp only [mem_cons, not_or] at hleft
        have hrest := (mem_cons.mp hmem).resolve_left hleft.1
        obtain ⟨hentry, hroom⟩ := ih hrest hleft.2
        have hlength := some.inj hroom
        refine ⟨hentry, ?_⟩
        simpa [hhosted] using hlength
      | some 0 =>
        have hnobody : ((takeBack (some 0) waiting).filter (·.2.hosted)).length = 0 :=
          Nat.le_zero.mp (takeBack_hosted_le 0 waiting)
        refine ⟨?_, by rw [hnobody]⟩
        rcases mem_cons.mp hmem with rfl | hrest
        · exact hhosted
        · exact (ih hrest hleft).1

theorem takeBack_oldest {room : Option Nat} {waiting : List (Uuid × Agent)}
    {older newer : Uuid × Agent}
    (hsorted : waiting.Pairwise fun a b => a.2.pausedAt ≤ b.2.pausedAt)
    (holder : older ∈ waiting) (hhosted : newer.2.hosted = true)
    (hback : newer ∈ takeBack room waiting) (hless : older.2.pausedAt < newer.2.pausedAt) :
    older ∈ takeBack room waiting := by
  induction waiting generalizing room with
  | nil => cases holder
  | cons head waiting ih =>
    obtain ⟨holdest, hsorted⟩ := pairwise_cons.mp hsorted
    -- the head is no newer than the rest
    have hin (room' : Option Nat) (hback : newer ∈ head :: takeBack room' waiting) :
        older ∈ head :: takeBack room' waiting := by
      rcases mem_cons.mp holder with rfl | hrest
      · exact mem_cons_self
      · rcases mem_cons.mp hback with rfl | hback
        · have hle := holdest older hrest
          omega
        · exact mem_cons_of_mem _ (ih hsorted hrest hback)
    unfold takeBack at hback ⊢
    cases hhead : head.2.hosted with
    | false =>
      simp only [hhead, Bool.not_false, if_true] at hback ⊢
      exact hin room hback
    | true =>
      simp only [hhead, Bool.not_true, Bool.false_eq_true, if_false] at hback ⊢
      match room with
      | none => exact hin none hback
      | some (room + 1) => exact hin (some room) hback
      | some 0 =>
        have hnobody : newer ∈ (takeBack (some 0) waiting).filter (·.2.hosted) :=
          mem_filter.mpr ⟨hback, hhosted⟩
        have hle := takeBack_hosted_le 0 waiting
        have hpos := length_pos_of_mem hnobody
        omega

/-! ## The agents that wait -/

theorem mem_waiting :
    entry ∈ w.waiting organizationId ↔ entry ∈ w.agents ∧ entry.2.waits organizationId = true := by
  unfold World.waiting
  rw [mem_insertionSort, mem_filter]

theorem waits_not_enabled (h : agent.waits organizationId = true) : agent.enabled = false := by
  unfold Agent.waits at h
  simp only [Bool.and_eq_true, Bool.not_eq_true'] at h
  exact h.1.2

theorem waits_runsIn (h : agent.waits organizationId = true) :
    agent.runsIn organizationId = true := by
  unfold Agent.waits at h
  simp only [Bool.and_eq_true] at h
  exact h.1.1

theorem organizationId_of_runsIn (h : agent.runsIn organizationId = true) :
    agent.organizationId = organizationId := by
  unfold Agent.runsIn at h
  simp only [Bool.and_eq_true, decide_eq_true_eq] at h
  exact h.1.1

theorem back_sublist (w : World) (organizationId : Uuid) :
    (w.back organizationId).Sublist (w.waiting organizationId) := takeBack_sublist _ _

theorem back_ids (hids : (Assoc.keys w.agents).Nodup) (organizationId : Uuid) :
    (Assoc.keys (w.back organizationId)).Nodup := by
  have hperm : (w.waiting organizationId).Perm (w.agents.filter (·.2.waits organizationId)) :=
    perm_insertionSort _ _
  have hwaiting : (Assoc.keys (w.waiting organizationId)).Nodup :=
    (hperm.map Prod.fst).nodup_iff.mpr (Assoc.filter_keys_nodup hids _)
  exact hwaiting.sublist ((back_sublist w organizationId).map Prod.fst)

theorem back_stored (hids : (Assoc.keys w.agents).Nodup) (hentry : entry ∈ w.back organizationId) :
    w.agents.lookup entry.1 = some entry.2 ∧ entry.2.enabled = false := by
  obtain ⟨hmem, hwaits⟩ := mem_waiting.mp ((back_sublist w organizationId).subset hentry)
  exact ⟨Assoc.lookup_of_mem hids hmem, waits_not_enabled hwaits⟩

theorem back_runsIn (hentry : entry ∈ w.back organizationId) :
    entry.2.runsIn organizationId = true :=
  waits_runsIn (mem_waiting.mp ((back_sublist w organizationId).subset hentry)).2

theorem back_places (w : World) (organizationId : Uuid) :
    (w.back organizationId).filter (fun entry =>
        entry.2.runsIn organizationId && entry.2.hosted) =
      (w.back organizationId).filter (·.2.hosted) :=
  filter_congr fun entry hentry => by rw [back_runsIn hentry, Bool.true_and]

theorem room_eq (hplan : w.includedAgents.lookup organizationId = some included) :
    w.room organizationId = some (included - places w.agents organizationId) := by
  unfold World.room
  rw [hplan]
  rfl

/-! ## `resumeWithinCapacity` by itself -/

/-- The rows are on, each with its place, and the other rows are as they were. -/
structure BackOn (before after : List (Uuid × Agent)) (back : List (Uuid × Agent)) : Prop where
  kept : ∀ id, id ∉ Assoc.keys back → after.lookup id = before.lookup id
  on : ∀ entry ∈ back, ∃ now, after.lookup entry.1 = some (entry.2.resumed now)
  places : ∀ organizationId, places after organizationId = places before organizationId +
    (back.filter fun entry => entry.2.runsIn organizationId && entry.2.hosted).length

theorem backOn_nil (agents : List (Uuid × Agent)) : BackOn agents agents [] :=
  ⟨fun _ _ => rfl, fun _ hentry => (nomatch hentry), fun _ => rfl⟩

theorem BackOn.cons {after back : List (Uuid × Agent)} {now : Int}
    (h : BackOn (Assoc.put agents id (agent.resumed now)) after back)
    (hnew : id ∉ Assoc.keys back)
    (hstored : agents.lookup id = some agent ∧ agent.enabled = false) :
    BackOn agents after ((id, agent) :: back) where
  kept := by
    intro other hother
    obtain ⟨hne, hother⟩ := not_or.mp fun hmem => hother (mem_cons.mpr hmem)
    rw [h.kept other hother, Assoc.lookup_put, if_neg hne]
  on := by
    intro entry hentry
    rcases mem_cons.mp hentry with rfl | hentry
    · exact ⟨now, by rw [h.kept id hnew, Assoc.lookup_put, if_pos rfl]⟩
    · exact h.on entry hentry
  places := by
    intro organizationId
    have hput := places_put agents organizationId id (agent.resumed now)
    have hnot : (agents.lookup id).any (·.hostedOn organizationId) = false := by
      rw [hstored.1]
      simp [Agent.hostedOn, hstored.2]
    rw [hnot, resumed_hostedOn] at hput
    rw [h.places organizationId, filter_cons]
    split
    next hplace =>
      simp only [hplace, Bool.false_eq_true, if_false, if_true] at hput
      rw [length_cons]
      omega
    next hplace =>
      simp only [hplace, Bool.false_eq_true, if_false] at hput
      omega

theorem resume_saves {resumed : Uuid} (outs : List Outside) (hok : ∀ out ∈ outs, out.ok = true)
    (back : List (Uuid × Agent)) (hlength : outs.length ≤ back.length) (w : World)
    (hcall : w.calls[i]? = some (.resume resumed (.savingNext back)))
    (hids : (Assoc.keys back).Nodup)
    (hstored : ∀ entry ∈ back, w.agents.lookup entry.1 = some entry.2 ∧ entry.2.enabled = false) :
    (Steps.run step w (outs.map (.advance i ·))).calls[i]? =
        some (.resume resumed (.savingNext (back.drop outs.length))) ∧
      BackOn w.agents (Steps.run step w (outs.map (.advance i ·))).agents
        (back.take outs.length) := by
  induction outs generalizing back w with
  | nil => exact ⟨hcall, backOn_nil w.agents⟩
  | cons out outs ih =>
    cases back with
    | nil => exact absurd hlength (Nat.not_succ_le_zero _)
    | cons entry back =>
      obtain ⟨id, agent⟩ := entry
      obtain ⟨hnew, hids⟩ := nodup_cons.mp hids
      have hgood : out.ok = true := hok out mem_cons_self
      have hstep : step w (.advance i out) =
          w.moved i (.saveAgent id (agent.resumed out.now))
            (.resume resumed (.savingNext back)) := by
        unfold step
        dsimp only
        rw [hcall]
        unfold advance advanceResume
        simp only [ResumeStage.savingNext, hgood]
        rfl
      have hnext := ih (fun out hout => hok out (mem_cons_of_mem _ hout)) back
        (Nat.le_of_succ_le_succ hlength) (step w (.advance i out))
        (by rw [hstep]; exact Slots.getElem?_set_of_some hcall) hids (by
          intro entry hentry
          have hkey : entry.1 ∈ Assoc.keys back := mem_map_of_mem hentry
          have hne : entry.1 ≠ id := by
            intro heq
            rw [heq] at hkey
            exact hnew hkey
          rw [hstep]
          show (Assoc.put w.agents id _).lookup entry.1 = _ ∧ _
          rw [Assoc.lookup_put, if_neg hne]
          exact hstored entry (mem_cons_of_mem _ hentry))
      refine ⟨hnext.1, ?_⟩
      have hback := hnext.2
      rw [hstep] at hback
      have hfresh : id ∉ Assoc.keys (back.take outs.length) := fun hmem =>
        hnew (((take_sublist _ _).map Prod.fst).subset hmem)
      have hall := BackOn.cons hback hfresh (hstored (id, agent) mem_cons_self)
      rw [map_cons, Steps.run_cons, hstep]
      exact hall

theorem resumed_enabled (h : agent.waits organizationId = true) (now : Int) :
    (agent.resumed now).enabled = true := by
  unfold Agent.waits at h
  unfold Agent.enabled Agent.resumed Agent.updated
  cases hon : agent.alwaysOn with
  | none => simp [hon] at h
  | some config => rfl

theorem isOn_iff {after : World} {back : List (Uuid × Agent)} (hids : (Assoc.keys w.agents).Nodup)
    (hback : back ⊆ w.waiting organizationId) (h : BackOn w.agents after.agents back)
    (hentry : entry ∈ w.waiting organizationId) : after.isOn entry.1 = true ↔ entry ∈ back := by
  obtain ⟨hmem, hwaits⟩ := mem_waiting.mp hentry
  have hlookup : w.agents.lookup entry.1 = some entry.2 := Assoc.lookup_of_mem hids hmem
  unfold World.isOn
  constructor
  · intro hon
    by_contra hnot
    by_cases hkey : entry.1 ∈ Assoc.keys back
    · obtain ⟨other, hother, heq⟩ := mem_map.mp hkey
      have hstored := Assoc.lookup_of_mem hids (mem_waiting.mp (hback hother)).1
      rw [heq, hlookup] at hstored
      have hsame : other = entry := Prod.ext heq (some.inj hstored).symm
      exact hnot (hsame ▸ hother)
    · rw [h.kept entry.1 hkey, hlookup] at hon
      have hoff := waits_not_enabled hwaits
      simp [hoff] at hon
  · intro hin
    obtain ⟨now, hnow⟩ := h.on entry hin
    rw [hnow]
    exact resumed_enabled hwaits now

theorem waiting_sorted (w : World) (organizationId : Uuid) :
    (w.waiting organizationId).Pairwise fun a b => a.2.pausedAt ≤ b.2.pausedAt := by
  have : Std.Total fun a b : Uuid × Agent => a.2.pausedAt ≤ b.2.pausedAt :=
    ⟨fun a b => by omega⟩
  have : IsTrans (Uuid × Agent) fun a b => a.2.pausedAt ≤ b.2.pausedAt :=
    ⟨fun a b c => by omega⟩
  exact pairwise_insertionSort _ _

variable {outs : List Outside}

theorem resume_alone (hids : (Assoc.keys w.agents).Nodup)
    (hcall : w.calls[i]? = some (.resume organizationId .opening)) {first : Outside}
    (hok : ∀ out ∈ first :: outs, out.ok = true)
    (hlength : outs.length ≤ (w.back organizationId).length) :
    (Steps.run step w ((first :: outs).map (.advance i ·))).calls[i]? = some (.resume organizationId
        (.savingNext ((w.back organizationId).drop outs.length))) ∧
      BackOn w.agents (Steps.run step w ((first :: outs).map (.advance i ·))).agents
        ((w.back organizationId).take outs.length) := by
  have hstep : step w (.advance i first) =
      w.moved i .nothing (.resume organizationId (.savingNext (w.back organizationId))) := by
    unfold step
    dsimp only
    rw [hcall]
    unfold advance advanceResume
    simp only [hok first mem_cons_self]
    rfl
  have hsaves := resume_saves outs (fun out hout => hok out (mem_cons_of_mem _ hout))
    (w.back organizationId) hlength (step w (.advance i first))
    (by rw [hstep]; exact Slots.getElem?_set_of_some hcall) (back_ids hids organizationId) (by
      intro entry hentry
      rw [hstep]
      exact back_stored hids hentry)
  rw [map_cons, Steps.run_cons]
  refine ⟨hsaves.1, ?_⟩
  have hon := hsaves.2
  rw [hstep] at hon ⊢
  exact hon

theorem resume_oldest_first (hids : (Assoc.keys w.agents).Nodup)
    (hcall : w.calls[i]? = some (.resume organizationId .opening)) {first : Outside}
    (hok : ∀ out ∈ first :: outs, out.ok = true)
    (hlength : outs.length ≤ (w.back organizationId).length) {older newer : Uuid × Agent}
    (holder : older ∈ w.waiting organizationId) (hnewer : newer ∈ w.waiting organizationId)
    (hplace : newer.2.hosted = true ∨ older.2.hosted = false)
    (hless : older.2.pausedAt < newer.2.pausedAt)
    (hon : (Steps.run step w ((first :: outs).map (.advance i ·))).isOn newer.1 = true) :
    (Steps.run step w ((first :: outs).map (.advance i ·))).isOn older.1 = true := by
  have hsub := back_sublist w organizationId
  have htake : (w.back organizationId).take outs.length ⊆ w.waiting organizationId :=
    fun entry hentry => hsub.subset ((take_sublist _ _).subset hentry)
  have hback := (resume_alone hids hcall hok hlength).2
  have hin := (isOn_iff hids htake hback hnewer).mp hon
  refine (isOn_iff hids htake hback holder).mpr ?_
  have hcomes : older ∈ w.back organizationId := by
    rcases hplace with hhosted | hfree
    · exact takeBack_oldest (waiting_sorted w organizationId) holder hhosted
        ((take_sublist _ _).subset hin) hless
    · by_contra hleft
      rw [(takeBack_left holder hleft).1] at hfree
      cases hfree
  -- the list is in order, so what comes after is no older
  rw [← take_append_drop outs.length (w.back organizationId)] at hcomes
  rcases mem_append.mp hcomes with hearly | hlate
  · exact hearly
  · have hsorted := (waiting_sorted w organizationId).sublist hsub
    rw [← take_append_drop outs.length (w.back organizationId)] at hsorted
    have hle := (pairwise_append.mp hsorted).2.2 newer hin older hlate
    omega

theorem resume_leaves_no_room (hplan : w.includedAgents.lookup organizationId = some included)
    (hids : (Assoc.keys w.agents).Nodup)
    (hcall : w.calls[i]? = some (.resume organizationId .opening)) {first : Outside}
    (hok : ∀ out ∈ first :: outs, out.ok = true)
    (hlength : outs.length = (w.back organizationId).length) :
    (Steps.run step w ((first :: outs).map (.advance i ·))).calls[i]? =
        some (.resume organizationId .returned) ∧
      ∀ entry ∈ w.waiting organizationId,
        (Steps.run step w ((first :: outs).map (.advance i ·))).isOn entry.1 = false →
        included ≤ places (Steps.run step w ((first :: outs).map (.advance i ·))).agents
          organizationId := by
  obtain ⟨hreturned, hback⟩ := resume_alone hids hcall hok (Nat.le_of_eq hlength)
  have hsub := back_sublist w organizationId
  rw [hlength, drop_length] at hreturned
  rw [hlength, List.take_length] at hback
  refine ⟨hreturned, fun entry hentry hoff => ?_⟩
  have hleft : entry ∉ w.back organizationId := by
    intro hin
    rw [(isOn_iff hids hsub.subset hback hentry).mpr hin] at hoff
    cases hoff
  have hfull : w.room organizationId =
      some ((w.back organizationId).filter (·.2.hosted)).length := (takeBack_left hentry hleft).2
  have hcount := some.inj ((room_eq hplan).symm.trans hfull)
  have hplaces := hback.places organizationId
  rw [back_places] at hplaces
  omega

end Almyty.AlwaysOn

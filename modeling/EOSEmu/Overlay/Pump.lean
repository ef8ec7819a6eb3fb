import EOSEmu.Lib.Once
import EOSEmu.Social.UiEvents

/-!
# Routing what the user clicks

`UIInterface::PumpSocial` (`UI.cpp`): each tick takes four snapshots of the invites and joinable
games, publishes them as rows, collects what the user clicked and what the automatic accept and
join add, and performs one action after the other. Every snapshot and every action is a locked
section of its own, so the receive thread, and the overlay's thread with its clicks, come in
between. Every click is performed once, in order, and the automatic actions meet each invite and
each game once (`actions_once`).
-/

namespace EOSEmu

open Lib

/-- `OverlaySocialKind`. -/
inductive OverlaySocialKind where
  | invite (k : SocialKind)
  | join (k : SocialKind)
  deriving DecidableEq, Repr

/-- `OverlayActionKind`. -/
inductive OverlayActionKind where
  | accept
  | reject
  | join
  deriving DecidableEq, Repr

/-- `OverlaySocialItem`. -/
structure OverlaySocialItem where
  kind : OverlaySocialKind
  id : Bytes
  label : Bytes
  deriving DecidableEq, Repr

/-- `OverlaySocialAction`. -/
structure OverlaySocialAction where
  kind : OverlaySocialKind
  action : OverlayActionKind
  id : Bytes
  deriving DecidableEq, Repr

/-- The snapshots a tick works on. -/
structure Snapshots where
  lobbyInvites : List InviteView := []
  lobbyJoinable : List JoinableView := []
  sessionInvites : List InviteView := []
  sessionJoinable : List JoinableView := []

/-- How far the tick is. -/
inductive PumpStage where
  | idle
  | lobbyJoinable (sn : Snapshots)
  | sessionInvites (sn : Snapshots)
  | sessionJoinable (sn : Snapshots)
  | publish (sn : Snapshots)
  | collect (sn : Snapshots)
  | perform (actions : List OverlaySocialAction)

/-- The snapshots the tick has taken. -/
def PumpStage.seen : PumpStage → Snapshots
  | .lobbyJoinable sn | .sessionInvites sn | .sessionJoinable sn | .publish sn | .collect sn => sn
  | .idle | .perform _ => {}

/-- The social part of `UIInterface`, the rows and actions it shares with the overlay, and the two
interfaces. -/
structure SocialPump where
  node : SocialNode
  autoAccept : Bool
  autoJoin : Bool
  handledInvites : Finset Bytes := ∅
  handledJoins : Finset Bytes := ∅
  socialItems : List OverlaySocialItem := []
  socialActions : List OverlaySocialAction := []
  stage : PumpStage := .idle

/-- What the threads do. -/
inductive PumpAction where
  /-- A section of the lobbies and sessions that the pump does not take. -/
  | social (a : SocialAction)
  /-- `QueueAction`, on the overlay's thread. -/
  | click (a : OverlaySocialAction)
  /-- The tick takes its next snapshot. -/
  | snapshot
  /-- It publishes the rows, with what `Available` answers and the names of `NameForPid`. -/
  | publish (available : Bool) (nameForPid : Bytes → Bytes)
  /-- It collects the actions. -/
  | collect (available : Bool)
  /-- It performs the next action, or is done. -/
  | perform

/-- The prefix of the keys in the sets. -/
def SocialKind.handledPrefix : SocialKind → Bytes
  | .lobby => str "L:"
  | .session => str "S:"

namespace OverlaySocialAction

/-- The key of an action in `HandledInvites_` or `HandledJoins_`. -/
def handledKey (a : OverlaySocialAction) : Bytes :=
  match a.kind with
  | .invite k | .join k => k.handledPrefix ++ a.id

/-- The section that performs it. -/
def section_ (a : OverlaySocialAction) : SocialAction :=
  match a.kind with
  | .invite k => if a.action = .reject then .rejectInviteFromOverlay k a.id
    else .acceptInviteFromOverlay k a.id
  | .join k => .beginJoinFromOverlay k a.id

end OverlaySocialAction

namespace Snapshots
variable (sn : Snapshots)

/-- The automatic accepts. -/
def accepts : List OverlaySocialAction :=
  (sn.lobbyInvites.map fun i => ⟨.invite .lobby, .accept, i.inviteId⟩) ++
    sn.sessionInvites.map fun i => ⟨.invite .session, .accept, i.inviteId⟩

/-- The automatic joins. -/
def joins : List OverlaySocialAction :=
  (sn.lobbyJoinable.map fun j => ⟨.join .lobby, .join, j.subject⟩) ++
    sn.sessionJoinable.map fun j => ⟨.join .session, .join, j.subject⟩

/-- All that the tick can do by itself. -/
def automatic : List OverlaySocialAction := sn.accepts ++ sn.joins

/-- The rows. -/
def items (nameForPid : Bytes → Bytes) : List OverlaySocialItem :=
  (sn.lobbyInvites.map fun i =>
    ⟨.invite .lobby, i.inviteId, nameForPid i.fromProduct ++ str " invited you to a lobby"⟩) ++
  (sn.sessionInvites.map fun i =>
    ⟨.invite .session, i.inviteId, nameForPid i.fromProduct ++ str " invited you to a session"⟩) ++
  (sn.lobbyJoinable.map fun j =>
    ⟨.join .lobby, j.subject, str "Join " ++ nameForPid j.ownerPid ++ str "'s lobby"⟩) ++
  sn.sessionJoinable.map fun j =>
    ⟨.join .session, j.subject, str "Join " ++ nameForPid j.ownerPid ++ str "'s session"⟩

end Snapshots

/-- What the four snapshots would show if they were taken at once. -/
def SocialNode.snapshots (n : SocialNode) : Snapshots where
  lobbyInvites := n.snapshotInvites .lobby
  lobbyJoinable := n.snapshotJoinable .lobby
  sessionInvites := n.snapshotInvites .session
  sessionJoinable := n.snapshotJoinable .session

namespace SocialPump
variable (s : SocialPump)

/-- The clicks a tick collects. -/
def collected (available : Bool) : List OverlaySocialAction :=
  if available then s.socialActions else []

/-- The automatic accepts it adds, and the invites handled then. -/
def autoAccepts (sn : Snapshots) : List OverlaySocialAction × Finset Bytes :=
  if s.autoAccept then takeNew OverlaySocialAction.handledKey s.handledInvites sn.accepts
    else ([], s.handledInvites)

/-- The automatic joins it adds, and the games handled then. -/
def autoJoins (sn : Snapshots) : List OverlaySocialAction × Finset Bytes :=
  if s.autoJoin then takeNew OverlaySocialAction.handledKey s.handledJoins sn.joins
    else ([], s.handledJoins)

/-- One step. -/
def step : PumpAction → Option SocialPump
  | .social a => (s.node.step a).map fun node => { s with node }
  | .click a => some { s with socialActions := s.socialActions ++ [a] }
  | .snapshot =>
      match s.stage with
      | .idle =>
        some { s with stage := .lobbyJoinable { lobbyInvites := s.node.snapshotInvites .lobby } }
      | .lobbyJoinable sn =>
          some { s with
            stage := .sessionInvites { sn with lobbyJoinable := s.node.snapshotJoinable .lobby } }
      | .sessionInvites sn =>
          some { s with
            stage := .sessionJoinable
              { sn with sessionInvites := s.node.snapshotInvites .session } }
      | .sessionJoinable sn =>
          some { s with
            stage := .publish { sn with sessionJoinable := s.node.snapshotJoinable .session } }
      | _ => none
  | .publish available nameForPid =>
      match s.stage with
      | .publish sn => some { s with
          socialItems := if available then sn.items nameForPid else s.socialItems
          stage := .collect sn }
      | _ => none
  | .collect available =>
      match s.stage with
      | .collect sn => some { s with
          socialActions := if available then [] else s.socialActions
          handledInvites := (s.autoAccepts sn).2
          handledJoins := (s.autoJoins sn).2
          stage := .perform (s.collected available ++ ((s.autoAccepts sn).1 ++ (s.autoJoins sn).1))
            }
      | _ => none
  | .perform =>
      match s.stage with
      | .perform [] => some { s with stage := .idle }
      | .perform (a :: actions) => (s.node.step a.section_).map fun node =>
        { s with node, stage := .perform actions }
      | _ => none

/-- The actions still to be performed. -/
def todo : List OverlaySocialAction :=
  match s.stage with
  | .perform actions => actions
  | _ => []

/-- The automatic accepts and joins of a step. -/
def acceptsAt : PumpAction → List OverlaySocialAction
  | .collect _ =>
      match s.stage with
      | .collect sn => (s.autoAccepts sn).1
      | _ => []
  | _ => []

def joinsAt : PumpAction → List OverlaySocialAction
  | .collect _ =>
      match s.stage with
      | .collect sn => (s.autoJoins sn).1
      | _ => []
  | _ => []

/-- The clicks that a step collects. -/
def clicksAt : PumpAction → List OverlaySocialAction
  | .collect available => s.collected available
  | _ => []

/-- The action that a step performs. -/
def performsAt : PumpAction → List OverlaySocialAction
  | .perform => s.todo.head?.toList
  | _ => []

/-- The pump of a fresh platform. -/
def start (localPid : Bytes) (unicastPort : UInt16) (autoAccept autoJoin : Bool) : SocialPump :=
  { node := .start localPid unicastPort, autoAccept, autoJoin }

end SocialPump

/-- The click of a step. -/
def PumpAction.clicks : PumpAction → List OverlaySocialAction
  | .click a => [a]
  | _ => []

/-- A transition of the pump. -/
abbrev PumpTransition := Transition SocialPump PumpAction

/-! ## Keys -/

/-- What the automatic accept does. -/
def OverlaySocialAction.IsAccept (a : OverlaySocialAction) : Prop :=
  ∃ k, a.kind = .invite k ∧ a.action = .accept

/-- What the automatic join does. -/
def OverlaySocialAction.IsJoin (a : OverlaySocialAction) : Prop :=
  ∃ k, a.kind = .join k ∧ a.action = .join

/-- A key tells the interface and the id. -/
theorem SocialKind.handledPrefix_inj {j k : SocialKind} {x y : Bytes}
    (h : j.handledPrefix ++ x = k.handledPrefix ++ y) : j = k ∧ x = y := by
  cases j <;> cases k
  · exact ⟨rfl, List.append_cancel_left h⟩
  · cases (List.cons.inj h).1
  · cases (List.cons.inj h).1
  · exact ⟨rfl, List.append_cancel_left h⟩

/-- Two accepted invites with one handled key are the same. -/
theorem OverlaySocialAction.IsAccept.key_inj {a b : OverlaySocialAction} (ha : a.IsAccept)
    (hb : b.IsAccept) (h : a.handledKey = b.handledKey) : a = b := by
  obtain ⟨kind, action, id⟩ := a
  obtain ⟨kind', action', id'⟩ := b
  obtain ⟨j, rfl, rfl⟩ := ha
  obtain ⟨k, rfl, rfl⟩ := hb
  obtain ⟨rfl, rfl⟩ := SocialKind.handledPrefix_inj h
  rfl

/-- Two joined lobbies with one handled key are the same. -/
theorem OverlaySocialAction.IsJoin.key_inj {a b : OverlaySocialAction} (ha : a.IsJoin)
    (hb : b.IsJoin) (h : a.handledKey = b.handledKey) : a = b := by
  obtain ⟨kind, action, id⟩ := a
  obtain ⟨kind', action', id'⟩ := b
  obtain ⟨j, rfl, rfl⟩ := ha
  obtain ⟨k, rfl, rfl⟩ := hb
  obtain ⟨rfl, rfl⟩ := SocialKind.handledPrefix_inj h
  rfl

/-- What a snapshot offers to accept are invites. -/
theorem Snapshots.isAccept {sn : Snapshots} {a : OverlaySocialAction} (h : a ∈ sn.accepts) :
    a.IsAccept := by
  rcases List.mem_append.1 h with h | h
  · obtain ⟨i, _, rfl⟩ := List.mem_map.1 h
    exact ⟨.lobby, rfl, rfl⟩
  · obtain ⟨i, _, rfl⟩ := List.mem_map.1 h
    exact ⟨.session, rfl, rfl⟩

/-- What a snapshot offers to join are lobbies. -/
theorem Snapshots.isJoin {sn : Snapshots} {a : OverlaySocialAction} (h : a ∈ sn.joins) :
    a.IsJoin := by
  rcases List.mem_append.1 h with h | h
  · obtain ⟨i, _, rfl⟩ := List.mem_map.1 h
    exact ⟨.lobby, rfl, rfl⟩
  · obtain ⟨i, _, rfl⟩ := List.mem_map.1 h
    exact ⟨.session, rfl, rfl⟩

/-! ## One step -/

namespace SocialPump
variable {s t : SocialPump} {a : PumpAction}

/-- What a step does to the actions. -/
structure ActionStep (s t : SocialPump) (a : PumpAction) : Prop where
  clicks : s.socialActions ++ a.clicks = s.clicksAt a ++ t.socialActions
  todo : s.todo ++ (s.clicksAt a ++ (s.acceptsAt a ++ s.joinsAt a)) = s.performsAt a ++ t.todo
  accepts : (s.acceptsAt a = [] ∧ t.handledInvites = s.handledInvites) ∨
    ∃ sn, s.stage = .collect sn ∧ (s.acceptsAt a, t.handledInvites) = s.autoAccepts sn
  joins : (s.joinsAt a = [] ∧ t.handledJoins = s.handledJoins) ∨ ∃ sn, s.stage = .collect sn ∧
    (s.joinsAt a, t.handledJoins) = s.autoJoins sn
  flags : t.autoAccept = s.autoAccept ∧ t.autoJoin = s.autoJoin

/-- A step that neither collects nor performs. -/
theorem ActionStep.idle (hactions : t.socialActions = s.socialActions ++ a.clicks)
    (htodo : t.todo = s.todo) (hclicks : s.clicksAt a = []) (hperforms : s.performsAt a = [])
    (haccepts : s.acceptsAt a = []) (hjoins : s.joinsAt a = [])
    (hhandled : t.handledInvites = s.handledInvites ∧ t.handledJoins = s.handledJoins)
    (hflags : t.autoAccept = s.autoAccept ∧ t.autoJoin = s.autoJoin) : ActionStep s t a where
  clicks := by rw [hclicks, hactions, List.nil_append]
  todo := by simp [hclicks, hperforms, haccepts, hjoins, htodo]
  accepts := .inl ⟨haccepts, hhandled.1⟩
  joins := .inl ⟨hjoins, hhandled.2⟩
  flags := hflags

/-- What one section does to the actions under way. -/
theorem step_actions (h : s.step a = some t) : ActionStep s t a := by
  cases a with
  | social b =>
      obtain ⟨node, _, rfl⟩ := Option.map_eq_some_iff.1 h
      exact .idle (List.append_nil _).symm rfl rfl rfl rfl rfl ⟨rfl, rfl⟩ ⟨rfl, rfl⟩
  | click b =>
      cases h
      exact .idle rfl rfl rfl rfl rfl rfl ⟨rfl, rfl⟩ ⟨rfl, rfl⟩
  | snapshot =>
      simp only [step] at h
      split at h
      -- in each stage that takes a snapshot there was nothing to do, and there is nothing to do
      -- after it
      all_goals cases h
      all_goals
        next hstage =>
          refine .idle (List.append_nil _).symm ?_ rfl rfl rfl rfl ⟨rfl, rfl⟩ ⟨rfl, rfl⟩
          simp [SocialPump.todo, hstage]
  | publish available names =>
      simp only [step] at h
      split at h
      · next hstage =>
          cases h
          refine .idle (List.append_nil _).symm ?_ rfl rfl rfl rfl ⟨rfl, rfl⟩ ⟨rfl, rfl⟩
          simp [SocialPump.todo, hstage]
      · cases h
  | collect available =>
      simp only [step] at h
      split at h
      · next sn hstage =>
          cases h
          have haccepts : s.acceptsAt (.collect available) = (s.autoAccepts sn).1 := by
            simp [acceptsAt, hstage]
          have hjoins : s.joinsAt (.collect available) = (s.autoJoins sn).1 := by
            simp [joinsAt, hstage]
          have htodo : s.todo = [] := by simp [SocialPump.todo, hstage]
          refine ⟨?_, ?_, .inr ⟨sn, hstage, by rw [haccepts]⟩,
            .inr ⟨sn, hstage, by rw [hjoins]⟩, rfl, rfl⟩
          · cases available <;> simp [clicksAt, collected, PumpAction.clicks]
          · rw [haccepts, hjoins, htodo]
            rfl
      · cases h
  | perform =>
      simp only [step] at h
      split at h
      · next hstage =>
          cases h
          refine .idle (List.append_nil _).symm ?_ rfl ?_ rfl rfl ⟨rfl, rfl⟩ ⟨rfl, rfl⟩ <;>
            simp [performsAt, SocialPump.todo, hstage]
      · next b actions hstage =>
          obtain ⟨node, _, rfl⟩ := Option.map_eq_some_iff.1 h
          refine ⟨(List.append_nil _), ?_, .inl ⟨rfl, rfl⟩, .inl ⟨rfl, rfl⟩, rfl, rfl⟩
          simp [performsAt, clicksAt, acceptsAt, joinsAt, SocialPump.todo, hstage]
      · cases h

/-- What a step adds to the snapshots is shown then. -/
theorem step_seen (h : s.step a = some t) {b : OverlaySocialAction}
    (hb : b ∈ t.stage.seen.automatic) :
    b ∈ s.stage.seen.automatic ∨ b ∈ s.node.snapshots.automatic := by
  cases a with
  | social c =>
      obtain ⟨node, _, rfl⟩ := Option.map_eq_some_iff.1 h
      exact .inl hb
  | click c =>
      cases h
      exact .inl hb
  | snapshot =>
      simp only [step] at h
      split at h
      all_goals cases h
      all_goals
        next hstage =>
          simp only [PumpStage.seen, Snapshots.automatic, Snapshots.accepts, Snapshots.joins,
            List.mem_append] at hb
          simp only [hstage, PumpStage.seen, Snapshots.automatic, Snapshots.accepts,
            Snapshots.joins, SocialNode.snapshots, List.mem_append]
          tauto
  | publish available names =>
      simp only [step] at h
      split at h
      · next hstage =>
          cases h
          rw [hstage]
          exact .inl hb
      · cases h
  | collect available =>
      simp only [step] at h
      split at h <;> cases h
      cases hb
  | perform =>
      simp only [step] at h
      split at h
      · cases h
        cases hb
      · obtain ⟨node, _, rfl⟩ := Option.map_eq_some_iff.1 h
        cases hb
      · cases h

/-- What a step that collects has handled. -/
theorem collect_handled {available : Bool} {sn : Snapshots}
    (h : s.step (.collect available) = some t) (hstage : s.stage = .collect sn) :
    t.handledInvites = (s.autoAccepts sn).2 ∧ t.handledJoins = (s.autoJoins sn).2 := by
  simp only [step, hstage] at h
  cases h
  exact ⟨rfl, rfl⟩

/-- The automatic accepts come from the snapshots, and handle all of them. -/
theorem autoAccepts_spec (s : SocialPump) (sn : Snapshots) :
    (∀ a ∈ (s.autoAccepts sn).1, a ∈ sn.accepts) ∧
    (s.autoAccept = true → ∀ a ∈ sn.accepts, a.handledKey ∈ (s.autoAccepts sn).2) := by
  unfold autoAccepts
  split
  · exact ⟨fun a ha => mem_of_mem_takeNew ha, fun _ a ha => mem_takeNew ha⟩
  · next hoff =>
      refine ⟨fun a ha => ?_, fun hon => absurd hon hoff⟩
      cases ha

/-- What is joined by itself was on offer, and with automatic joins all that is on offer is
handled. -/
theorem autoJoins_spec (s : SocialPump) (sn : Snapshots) :
    (∀ a ∈ (s.autoJoins sn).1, a ∈ sn.joins) ∧
    (s.autoJoin = true → ∀ a ∈ sn.joins, a.handledKey ∈ (s.autoJoins sn).2) := by
  unfold autoJoins
  split
  · exact ⟨fun a ha => mem_of_mem_takeNew ha, fun _ a ha => mem_takeNew ha⟩
  · next hoff =>
      refine ⟨fun a ha => ?_, fun hon => absurd hon hoff⟩
      cases ha

end SocialPump

/-! ## A run -/

section
variable (l : List PumpTransition)

/-- The clicks of a run, oldest first. -/
def clicked : List OverlaySocialAction := l.flatMap fun x => x.action.clicks

/-- The clicks that its ticks collected. -/
def collectedClicks : List OverlaySocialAction := l.flatMap fun x => x.pre.clicksAt x.action

/-- The automatic accepts and joins of its ticks. -/
def autoAccepted : List OverlaySocialAction := l.flatMap fun x => x.pre.acceptsAt x.action
def autoJoined : List OverlaySocialAction := l.flatMap fun x => x.pre.joinsAt x.action

/-- All actions its ticks collected. -/
def collectedActions : List OverlaySocialAction :=
  l.flatMap fun x => x.pre.clicksAt x.action ++
    (x.pre.acceptsAt x.action ++ x.pre.joinsAt x.action)

/-- The actions they performed. -/
def performed : List OverlaySocialAction := l.flatMap fun x => x.pre.performsAt x.action

end

/-- An automatic action was on offer at some moment of the run. -/
def OnOffer (l : List PumpTransition) (a : OverlaySocialAction) : Prop :=
  ∃ x ∈ l, a ∈ x.pre.node.snapshots.automatic

/-- What becomes of the actions in a run. -/
structure ActionsOnce (l : List PumpTransition) (s : SocialPump) : Prop where
  /-- What was clicked was collected once, in order, or waits for the next tick. -/
  clicks : clicked l = collectedClicks l ++ s.socialActions
  /-- What was collected was performed once, in order, or is about to be. -/
  performs : collectedActions l = performed l ++ s.todo
  /-- No invite is accepted, and no game joined, automatically twice. -/
  once : (autoAccepted l).Nodup ∧ (autoJoined l).Nodup
  /-- Each of them answers what was on offer before. -/
  genuine : ∀ a ∈ autoAccepted l ++ autoJoined l, OnOffer l a
  /-- With the automatic accept, every invite of a snapshot is accepted; with the automatic join,
  every game joined. -/
  complete : ∀ before x after sn available, l = before ++ x :: after →
    x.action = .collect available → x.pre.stage = .collect sn →
      (x.pre.autoAccept = true → sn.accepts ⊆ autoAccepted (before ++ [x])) ∧
      (x.pre.autoJoin = true → sn.joins ⊆ autoJoined (before ++ [x]))

/-- The invariant of the pump. -/
structure PumpKept (l : List PumpTransition) (s : SocialPump) : Prop where
  clicks : clicked l = collectedClicks l ++ s.socialActions
  performs : collectedActions l = performed l ++ s.todo
  accepts : TakenOnce OverlaySocialAction.handledKey (autoAccepted l) s.handledInvites
  joins : TakenOnce OverlaySocialAction.handledKey (autoJoined l) s.handledJoins
  isAccept : ∀ a ∈ autoAccepted l, a.IsAccept
  isJoin : ∀ a ∈ autoJoined l, a.IsJoin
  seen : ∀ a ∈ s.stage.seen.automatic, OnOffer l a
  genuine : ∀ a ∈ autoAccepted l ++ autoJoined l, OnOffer l a

/-- What was on offer stays so. -/
theorem OnOffer.snoc {l : List PumpTransition} {a : OverlaySocialAction} (h : OnOffer l a)
    (x : PumpTransition) : OnOffer (l ++ [x]) a := by
  obtain ⟨y, hy, ha⟩ := h
  exact ⟨y, List.mem_append_left _ hy, ha⟩

section
variable {l : List PumpTransition} {s t : SocialPump} {a : PumpAction}

/-- The clicks collected by one more section. -/
theorem collectedClicks_snoc (x : PumpTransition) :
    collectedClicks (l ++ [x]) = collectedClicks l ++ x.pre.clicksAt x.action := by
  simp [collectedClicks]

/-- The invites accepted by one more section. -/
theorem autoAccepted_snoc (x : PumpTransition) :
    autoAccepted (l ++ [x]) = autoAccepted l ++ x.pre.acceptsAt x.action := by
  simp [autoAccepted]

/-- The lobbies joined by one more section. -/
theorem autoJoined_snoc (x : PumpTransition) :
    autoJoined (l ++ [x]) = autoJoined l ++ x.pre.joinsAt x.action := by
  simp [autoJoined]

/-- The automatic accepts of a step, and the invites handled after it. -/
theorem SocialPump.ActionStep.takes_accepts (h : SocialPump.ActionStep s t a)
    (htaken : TakenOnce OverlaySocialAction.handledKey (autoAccepted l) s.handledInvites) :
    TakenOnce OverlaySocialAction.handledKey (autoAccepted l ++ s.acceptsAt a)
      t.handledInvites := by
  rcases h.accepts with ⟨hnone, hhandled⟩ | ⟨sn, _, hsome⟩
  · rwa [hnone, hhandled, List.append_nil]
  · unfold SocialPump.autoAccepts at hsome
    split at hsome
    · rw [(Prod.mk.inj hsome).1, (Prod.mk.inj hsome).2]
      exact htaken.takeNew _
    · rwa [(Prod.mk.inj hsome).1, (Prod.mk.inj hsome).2, List.append_nil]

/-- A section joins no lobby that was joined before. -/
theorem SocialPump.ActionStep.takes_joins (h : SocialPump.ActionStep s t a)
    (htaken : TakenOnce OverlaySocialAction.handledKey (autoJoined l) s.handledJoins) :
    TakenOnce OverlaySocialAction.handledKey (autoJoined l ++ s.joinsAt a) t.handledJoins := by
  rcases h.joins with ⟨hnone, hhandled⟩ | ⟨sn, _, hsome⟩
  · rwa [hnone, hhandled, List.append_nil]
  · unfold SocialPump.autoJoins at hsome
    split at hsome
    · rw [(Prod.mk.inj hsome).1, (Prod.mk.inj hsome).2]
      exact htaken.takeNew _
    · rwa [(Prod.mk.inj hsome).1, (Prod.mk.inj hsome).2, List.append_nil]

/-- They come from the snapshots. -/
theorem SocialPump.ActionStep.mem_accepts (h : SocialPump.ActionStep s t a)
    {b : OverlaySocialAction} (hb : b ∈ s.acceptsAt a) :
    b.IsAccept ∧ b ∈ s.stage.seen.automatic := by
  rcases h.accepts with ⟨hnone, _⟩ | ⟨sn, hstage, hsome⟩
  · rw [hnone] at hb
    cases hb
  · rw [(Prod.mk.inj hsome).1] at hb
    have hmem := (s.autoAccepts_spec sn).1 b hb
    rw [hstage]
    exact ⟨Snapshots.isAccept hmem, List.mem_append_left _ hmem⟩

/-- What a section joins is a lobby it saw on offer. -/
theorem SocialPump.ActionStep.mem_joins (h : SocialPump.ActionStep s t a)
    {b : OverlaySocialAction} (hb : b ∈ s.joinsAt a) : b.IsJoin ∧ b ∈ s.stage.seen.automatic := by
  rcases h.joins with ⟨hnone, _⟩ | ⟨sn, hstage, hsome⟩
  · rw [hnone] at hb
    cases hb
  · rw [(Prod.mk.inj hsome).1] at hb
    have hmem := (s.autoJoins_spec sn).1 b hb
    rw [hstage]
    exact ⟨Snapshots.isJoin hmem, List.mem_append_right _ hmem⟩

/-- A step keeps the accounts of the actions. -/
theorem PumpKept.step (h : PumpKept l s) (hst : s.step a = some t) :
    PumpKept (l ++ [⟨s, a, t⟩]) t := by
  have hactions := SocialPump.step_actions hst
  refine ⟨?_, ?_, ?_, ?_, ?_, ?_, ?_, ?_⟩
  · calc clicked (l ++ [⟨s, a, t⟩])
      _ = clicked l ++ a.clicks := by simp [clicked]
      _ = collectedClicks l ++ (s.socialActions ++ a.clicks) := by rw [h.clicks, List.append_assoc]
      _ = collectedClicks (l ++ [⟨s, a, t⟩]) ++ t.socialActions := by
          rw [hactions.clicks, collectedClicks_snoc, List.append_assoc]
  · calc collectedActions (l ++ [⟨s, a, t⟩])
      _ = collectedActions l ++ (s.clicksAt a ++ (s.acceptsAt a ++ s.joinsAt a)) := by
        simp [collectedActions]
      _ = performed l ++ (s.todo ++ (s.clicksAt a ++ (s.acceptsAt a ++ s.joinsAt a))) := by
          rw [h.performs, List.append_assoc]
      _ = performed (l ++ [⟨s, a, t⟩]) ++ t.todo := by rw [hactions.todo]; simp [performed]
  · rw [autoAccepted_snoc]
    exact hactions.takes_accepts h.accepts
  · rw [autoJoined_snoc]
    exact hactions.takes_joins h.joins
  · rw [autoAccepted_snoc]
    intro b hb
    exact (List.mem_append.1 hb).elim (h.isAccept b) fun hb => (hactions.mem_accepts hb).1
  · rw [autoJoined_snoc]
    intro b hb
    exact (List.mem_append.1 hb).elim (h.isJoin b) fun hb => (hactions.mem_joins hb).1
  · intro b hb
    rcases SocialPump.step_seen hst hb with hb | hb
    · exact (h.seen b hb).snoc _
    · exact ⟨⟨s, a, t⟩, by simp, hb⟩
  · rw [autoAccepted_snoc, autoJoined_snoc]
    intro b hb
    have hseen : b ∈ s.stage.seen.automatic → OnOffer (l ++ [⟨s, a, t⟩]) b := fun hb =>
      (h.seen b hb).snoc _
    rcases List.mem_append.1 hb with hb | hb <;> rcases List.mem_append.1 hb with hb | hb
    · exact (h.genuine b (List.mem_append_left _ hb)).snoc _
    · exact hseen (hactions.mem_accepts hb).2
    · exact (h.genuine b (List.mem_append_right _ hb)).snoc _
    · exact hseen (hactions.mem_joins hb).2

/-- The accounts hold in every run. -/
theorem PumpKept.of_trace {localPid : Bytes} {port : UInt16} {autoAccept autoJoin : Bool}
    (h : Trace SocialPump.step Always (.start localPid port autoAccept autoJoin) l s) :
      PumpKept l s :=
  h.invariant ⟨rfl, rfl, .nil, .nil, by simp [autoAccepted], by simp [autoJoined],
    by simp [SocialPump.start, PumpStage.seen, Snapshots.automatic, Snapshots.accepts,
      Snapshots.joins],
    by simp [autoAccepted, autoJoined]⟩ fun l s t a _ hk _ hst => hk.step hst

/-- What was handled was taken, where the key tells what it was. -/
theorem mem_of_handled {taken : List OverlaySocialAction} {handled : Finset Bytes}
    {b : OverlaySocialAction} (h : TakenOnce OverlaySocialAction.handledKey taken handled)
    (hb : b.handledKey ∈ handled) (hinj : ∀ c ∈ taken, c.handledKey = b.handledKey → c = b) :
    b ∈ taken := by
  obtain ⟨c, hc, hkey⟩ := List.mem_map.1 ((h.mem _).1 hb)
  rwa [← hinj c hc hkey]

end

/-- Whatever the threads do, the tick performs every click once and in the order of the clicks,
accepts every invite and joins every game automatically at most once, and misses none that it
saw. -/
theorem actions_once {l : List PumpTransition} {s : SocialPump} {localPid : Bytes} {port : UInt16}
    {autoAccept autoJoin : Bool}
    (h : Trace SocialPump.step Always (.start localPid port autoAccept autoJoin) l s) :
    ActionsOnce l s := by
  have hkept := PumpKept.of_trace h
  refine ⟨hkept.clicks, hkept.performs, ⟨hkept.accepts.nodup.of_map, hkept.joins.nodup.of_map⟩,
    hkept.genuine, ?_⟩
  intro before x after sn available hl haction hstage
  obtain ⟨hbefore, hok, hstep⟩ := h.forall_mem hl
  have hx := PumpKept.of_trace (.tail x.action hbefore hok hstep)
  rw [haction] at hstep
  obtain ⟨hinvites, hjoins⟩ := SocialPump.collect_handled hstep hstage
  constructor
  · intro hon b hb
    have hkey : b.handledKey ∈ x.post.handledInvites :=
      hinvites ▸ (x.pre.autoAccepts_spec sn).2 hon b hb
    exact mem_of_handled hx.accepts hkey fun c hc heq =>
      (hx.isAccept c hc).key_inj (Snapshots.isAccept hb) heq
  · intro hon b hb
    have hkey : b.handledKey ∈ x.post.handledJoins := hjoins ▸ (x.pre.autoJoins_spec sn).2 hon b hb
    exact mem_of_handled hx.joins hkey fun c hc heq =>
      (hx.isJoin c hc).key_inj (Snapshots.isJoin hb) heq

/-- A lobby is announced and clicked during a tick, which joins it for the click and by itself; the
tick after it does nothing more. -/
def sampleOverlayTicks : List PumpAction :=
  [.social (.lobby (.datagram 1 ⟨0x0A000002, 7002⟩ (.announce sampleAnnounced))), .snapshot,
    .click ⟨.join .lobby, .join, str "l"⟩, .snapshot, .snapshot, .snapshot, .publish true id,
      .collect true, .perform,
    .perform, .perform, .snapshot, .snapshot, .snapshot, .snapshot,
      .publish true id, .collect true, .perform]

/-- The lobby is joined for the click and by itself, and no third time. -/
theorem actions_once_sample :
    ∃ t, exec SocialPump.step (.start (str "a") 7001 true true) sampleOverlayTicks = some t ∧
      ActionsOnce
        (transitions SocialPump.step (.start (str "a") 7001 true true) sampleOverlayTicks) t ∧
      (performed (transitions SocialPump.step (.start (str "a") 7001 true true)
        sampleOverlayTicks)).length = 2 :=
  ⟨_, rfl, actions_once (Trace.of_exec rfl), rfl⟩

end EOSEmu

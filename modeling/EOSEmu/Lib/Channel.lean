import EOSEmu.Lib.Network

/-!
# What a link in order has delivered

In a run without loss, repetition and reordering, of a protocol whose receive sections send
nothing, the messages that a node's calls sent to another node are the ones delivered there,
followed by the ones the link and the outbox still hold (`Protocol.sent_eq`).
-/

namespace Lib

namespace Protocol

section
variable {ι α δ ν σ μ : Type*} [DecidableEq ι] (P : Protocol ι α δ ν σ μ)

/-- What a link will deliver when the sender's game thread has made its sends. -/
def stream (w : World ι ν σ μ) (s r : ι) : List μ :=
  (w.links s r).map (·.message) ++ (w.out s .game).filterMap fun x => P.wire x r

/-- The messages that a section puts on the link to a node. -/
def sends (o : Section ν σ) (r : ι) : List μ := (o.locked ++ o.later).filterMap fun x => P.wire x r

/-- The messages to a node that a step sends from another. -/
def sentAt (s r : ι) (x : Transition (World ι ν σ μ) (NetAction ι α δ)) : List μ :=
  match x.action with
  | .call i a => if i = s then ((P.call (x.pre.nodes i) a).map fun o => P.sends o r).getD
    [] else []
  | _ => []

/-- The message that a step delivers from one node to another. -/
def deliveredAt (s r : ι) (x : Transition (World ι ν σ μ) (NetAction ι α δ)) : Option μ :=
  match x.action with
  | .receive i j k _ _ => if i = s ∧ j = r then ((x.pre.links i j)[k]?).map (·.message) else none
  | _ => none

/-- The messages to a node that another one's calls sent, oldest first. -/
def sent (s r : ι) (l : List (Transition (World ι ν σ μ) (NetAction ι α δ))) : List μ :=
  l.flatMap (P.sentAt s r)

/-- The messages from a node that were delivered to another, oldest first. -/
def received (s r : ι) (l : List (Transition (World ι ν σ μ) (NetAction ι α δ))) : List μ :=
  l.flatMap fun x => (deliveredAt s r x).toList

variable {P} {w w' : World ι ν σ μ} {s r : ι}

omit [DecidableEq ι] in
/-- The messages of the copies, without their marks. -/
theorem map_message_copies (xs : List σ) (r : ι) :
    (P.copies xs r).map (·.message) = xs.filterMap fun x => P.wire x r := by
  unfold copies
  rw [List.map_filterMap]
  simp [Option.map_map, Function.comp_def]

/-- A call appends what it sends. -/
theorem stream_of_call (hsr : r ≠ s) {i : ι} {a : α} (h : P.step w (.call i a) = some w') :
    P.stream w' s r = P.stream w s r ++ P.sentAt s r ⟨w, .call i a, w'⟩ := by
  obtain ⟨hout, o, ho, rfl⟩ := step_call h
  by_cases his : i = s
  · subst his
    have hlinks : (P.post ((w.setNode i o.node).setOut i .game o.later) i o.locked).links i r =
        w.links i r ++ P.copies o.locked r := if_pos ⟨rfl, hsr⟩
    have hlater : (P.post ((w.setNode i o.node).setOut i .game o.later) i o.locked).out i .game =
      o.later :=
      if_pos ⟨rfl, rfl⟩
    have hsent : P.sentAt i r ⟨w, .call i a, P.post ((w.setNode i o.node).setOut i .game o.later) i
      o.locked⟩ = P.sends o r := by
      simp [sentAt, ho]
    rw [hsent, stream, stream, hlinks, hlater, hout, List.map_append, map_message_copies, sends,
      List.filterMap_append]
    simp
  · have hlinks : (P.post ((w.setNode i o.node).setOut i .game o.later) i o.locked).links s r =
      w.links s r :=
      if_neg fun heq => his heq.1.symm
    have hlater : (P.post ((w.setNode i o.node).setOut i .game o.later) i o.locked).out s .game =
      w.out s .game :=
      if_neg fun heq => his heq.1.symm
    rw [stream, stream, hlinks, hlater]
    simp [sentAt, his]

/-- A send moves a message from the outbox to the link. -/
theorem stream_of_send (hsr : r ≠ s) (hquiet : ∀ i, w.out i .receive = []) {i : ι}
    {th : ThreadKind} (h : P.step w (.send i th) = some w') : P.stream w' s r = P.stream w s r := by
  obtain ⟨x, hx⟩ := transmits_of_step h
  cases th with
  | receive =>
      have hempty := hx.sent
      rw [hquiet i] at hempty
      cases hempty
  | game =>
      by_cases hsi : s = i
      · subst hsi
        rw [stream, stream, (hx.link r).trans (if_pos hsr), hx.sent, List.map_append,
          map_message_copies, List.append_assoc, ← List.filterMap_append, List.singleton_append]
      · rw [stream, stream, hx.links s r hsi, hx.out s .game fun heq => absurd heq hsi]

/-- A delivery takes the first message. -/
theorem stream_of_receive
    (hhandle : ∀ n d s m, (P.handle n d s m).locked = [] ∧ (P.handle n d s m).later = [])
    {x : Transition (World ι ν σ μ) (NetAction ι α δ)} {i j : ι} {d : δ}
    (hx : x.action = .receive i j 0 d false) (h : P.step x.pre x.action = some x.post) :
    P.stream x.pre s r = (deliveredAt s r x).toList ++ P.stream x.post s r := by
  rw [hx] at h
  obtain ⟨c, hc⟩ := delivers_of_step (fun n d s m => (hhandle n d s m).1) h
  have hout : x.post.out s .game = x.pre.out s .game := hc.out s .game fun _ => by simp
  have hdelivered : deliveredAt s r x = if i = s ∧ j = r then some c.message else none := by
    simp [deliveredAt, hx, hc.link]
  rw [hdelivered, stream, stream, hout]
  split
  · next heq =>
      obtain ⟨rfl, rfl⟩ := heq
      rw [hc.link]
      rfl
  · next heq =>
      rw [hc.links s r fun h => heq ⟨h.1.symm, h.2.symm⟩]
      rfl

/-- The receive threads have nothing to send. -/
theorem quiet_of_step
    (hhandle : ∀ n d s m, (P.handle n d s m).locked = [] ∧ (P.handle n d s m).later = [])
    {a : NetAction ι α δ} (h : P.step w a = some w') (hquiet : ∀ i, w.out i .receive = []) (i : ι) :
    w'.out i .receive = [] := by
  have hset : ∀ (v : World ι ν σ μ) (j : ι) (th : ThreadKind) (xs ys : List σ), v.out = w.out →
      (th = .receive → xs = []) → (P.post (v.setOut j th xs) j ys).out i .receive = [] := by
    intro v j th xs ys hv hxs
    show (if i = j ∧ ThreadKind.receive = th then xs else v.out i .receive) = []
    split
    · next heq => exact hxs heq.2.symm
    · rw [hv]
      exact hquiet i
  cases a with
  | call j b =>
      obtain ⟨_, o, _, rfl⟩ := step_call h
      exact hset _ _ _ _ _ rfl (by simp)
  | send j th =>
      obtain ⟨x, xs, hout, rfl⟩ := step_send h
      refine hset w j th xs [x] rfl ?_
      rintro rfl
      rw [hquiet j] at hout
      cases hout
  | receive s r k d keep =>
      obtain ⟨_, c, _, rfl⟩ := step_receive h
      exact hset _ _ _ _ _ rfl fun _ => (hhandle _ _ _ _).2
  | lose s r k =>
      obtain ⟨_, rfl⟩ := step_lose h
      exact hquiet i

/-- **In order.** What a node's calls sent to another node is what was delivered there, followed by
what is still on its way. -/
theorem sent_eq {ok : World ι ν σ μ → NetAction ι α δ → Prop} {start : World ι ν σ μ}
    {l : List (Transition (World ι ν σ μ) (NetAction ι α δ))}
    (hhandle : ∀ n d s m, (P.handle n d s m).locked = [] ∧ (P.handle n d s m).later = [])
    (hfifo : ∀ w a, ok w a → Fifo w a) (hsr : r ≠ s) (hempty : ∀ i, Silent start i)
    (h : Trace P.step ok start l w) : P.sent s r l = received s r l ++ P.stream w s r := by
  refine (h.invariant (P := fun l w => (∀ i, w.out i .receive = []) ∧
    P.sent s r l = received s r l ++ P.stream w s r) ?_ ?_).2
  · refine ⟨fun i => (hempty i).1 .receive, ?_⟩
    rw [stream, (hempty s).2 r, (hempty s).1 .game]
    rfl
  · rintro l u v a _ ⟨hquiet, ih⟩ hok hst
    refine ⟨quiet_of_step hhandle hst hquiet, ?_⟩
    have hsent : P.sent s r (l ++ [⟨u, a, v⟩]) = P.sent s r l ++ P.sentAt s r ⟨u, a, v⟩ := by
      simp [sent]
    have hreceived : received s r (l ++ [⟨u, a, v⟩]) = received s r l ++
      (deliveredAt s r ⟨u, a, v⟩).toList := by
      simp [received]
    rw [hsent, hreceived, ih, List.append_assoc, List.append_assoc]
    refine congrArg _ ?_
    cases a with
    | call i b =>
        rw [stream_of_call hsr hst]
        rfl
    | send i th =>
        rw [stream_of_send hsr hquiet hst]
        simp [sentAt, deliveredAt]
    | receive i j k d keep =>
        obtain ⟨rfl, rfl⟩ := hfifo _ _ hok
        rw [stream_of_receive (x := ⟨u, _, v⟩) hhandle rfl hst]
        simp [sentAt]
    | lose => exact (hfifo _ _ hok).elim

end

end Protocol

end Lib

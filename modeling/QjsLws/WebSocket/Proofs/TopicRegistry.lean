import Mathlib.Data.List.Perm.Subperm
import QjsLws.WebSocket.TopicRegistry

/-!
# The two relations of the topic registry

Every operation changes the sets of the topics and the sets of the sockets alike, so they stay
converses of each other. A message misses someone only through a `send` that throws.
-/

namespace QjsLws.WebSocket

open QjsLws.Misc TopicRegistry

section Registry

variable {τ ω : Type} [DecidableEq τ] [DecidableEq ω] {r : TopicRegistry τ ω} {ws ws' : ω}
  {topic topic' : τ}

theorem mem_subscribers_subscribe :
    ws' ∈ ((r.subscribe ws topic).subscribers topic').elems ↔
      (ws' = ws ∧ topic' = topic) ∨ ws' ∈ (r.subscribers topic').elems := by
  rw [TopicRegistry.subscribers, TopicRegistry.subscribe, Assoc.get_set]
  by_cases same : topic = topic'
  · simp [same]
  · simp [same, Ne.symm same, TopicRegistry.subscribers]

theorem mem_topicsOf_subscribe :
    topic' ∈ ((r.subscribe ws topic).topicsOf ws').elems ↔
      (ws' = ws ∧ topic' = topic) ∨ topic' ∈ (r.topicsOf ws').elems := by
  rw [TopicRegistry.topicsOf, TopicRegistry.subscribe, Assoc.get_set]
  by_cases same : ws = ws'
  · simp [same]
  · simp [same, Ne.symm same, TopicRegistry.topicsOf]

/-- Deleting a socket from one topic. -/
theorem mem_dropSubscriber {topics : Assoc τ (OrderedSet ω)} :
    ws' ∈ (((dropSubscriber ws topics topic).get topic').getD .empty).elems ↔
      ws' ∈ ((topics.get topic').getD .empty).elems ∧ ¬(ws' = ws ∧ topic' = topic) := by
  rw [dropSubscriber]
  cases found : topics.get topic with
  | none =>
    refine (and_iff_left_of_imp ?_).symm
    rintro member ⟨rfl, rfl⟩
    rw [found] at member
    cases member
  | some subs =>
    rw [Assoc.get_set]
    by_cases same : topic = topic'
    · subst same
      simp [found]
    · simp [same, Ne.symm same]

/-- Deleting a socket from several topics. -/
theorem mem_foldl_dropSubscriber (dropped : List τ) :
    ∀ topics : Assoc τ (OrderedSet ω),
      ws' ∈ (((dropped.foldl (dropSubscriber ws) topics).get topic').getD .empty).elems ↔
        ws' ∈ ((topics.get topic').getD .empty).elems ∧ ¬(ws' = ws ∧ topic' ∈ dropped) := by
  induction dropped with
  | nil => simp
  | cons first rest ih =>
    intro topics
    rw [List.foldl_cons, ih, mem_dropSubscriber, List.mem_cons]
    tauto

theorem mem_subscribers_unsubscribe :
    ws' ∈ ((r.unsubscribe ws topic).subscribers topic').elems ↔
      ws' ∈ (r.subscribers topic').elems ∧ ¬(ws' = ws ∧ topic' = topic) := mem_dropSubscriber

theorem mem_topicsOf_unsubscribe :
    topic' ∈ ((r.unsubscribe ws topic).topicsOf ws').elems ↔
      topic' ∈ (r.topicsOf ws').elems ∧ ¬(ws' = ws ∧ topic' = topic) := by
  rw [TopicRegistry.topicsOf, TopicRegistry.unsubscribe, TopicRegistry.topicsOf]
  cases found : r.subscriptions.get ws with
  | none =>
    refine (and_iff_left_of_imp ?_).symm
    rintro member ⟨rfl, rfl⟩
    rw [found] at member
    cases member
  | some topics =>
    dsimp only
    rw [Assoc.get_set]
    by_cases same : ws = ws'
    · subst same
      simp [found]
    · simp [same, Ne.symm same]

/-- A clean-up deletes the socket from the topics that it knows of. -/
theorem mem_subscribers_cleanup :
    ws' ∈ ((r.cleanup ws).subscribers topic').elems ↔
      ws' ∈ (r.subscribers topic').elems ∧ ¬(ws' = ws ∧ topic' ∈ (r.topicsOf ws).elems) := by
  rw [TopicRegistry.cleanup, TopicRegistry.topicsOf]
  cases found : r.subscriptions.get ws with
  | none => simp
  | some topics => exact mem_foldl_dropSubscriber topics.elems r.topics

theorem mem_topicsOf_cleanup :
    topic' ∈ ((r.cleanup ws).topicsOf ws').elems ↔
      topic' ∈ (r.topicsOf ws').elems ∧ ws' ≠ ws := by
  rw [TopicRegistry.cleanup]
  cases found : r.subscriptions.get ws with
  | none =>
    refine (and_iff_left_of_imp ?_).symm
    rintro member rfl
    rw [TopicRegistry.topicsOf, found] at member
    cases member
  | some topics =>
    rw [TopicRegistry.topicsOf, Assoc.get_erase]
    by_cases same : ws = ws'
    · simp [same]
    · simp [same, Ne.symm same, TopicRegistry.topicsOf]

end Registry

section Publishing

variable {τ ω : Type} [DecidableEq τ] [DecidableEq ω] {throws : ω → Option JsError}
  {exclude : Option ω} {len : Nat}

/-- The loop calls the sockets but the excluded one, up to an exception. -/
theorem calls_sendAll (sockets : List ω) (sent : Nat) :
    (sendAll throws len exclude sent sockets).calls
      = takeThrough (fun ws => (throws ws).isSome)
        (sockets.filter fun ws => some ws ≠ exclude) := by
  induction sockets generalizing sent with
  | nil => rfl
  | cons ws rest ih =>
    rw [sendAll]
    by_cases excluded : some ws = exclude
    · simp [excluded, ih]
    · rw [if_neg excluded, List.filter_cons_of_pos (by simpa using excluded), takeThrough]
      cases throws ws with
      | some e => rfl
      | none => simp [ih]

/-- Everyone in a list of distinct sockets is called once exactly if all are called. -/
theorem count_takeThrough_iff {p : ω → Bool} {sockets : List ω} (nodup : sockets.Nodup) :
    (∀ ws, (takeThrough p sockets).count ws = if ws ∈ sockets then 1 else 0) ↔
      ∀ ws ∈ sockets.dropLast, p ws = false := by
  rw [← takeThrough_eq_self_iff]
  constructor
  · intro once
    apply (prefix_takeThrough sockets).eq_of_length_le
    apply (nodup.subperm ?_).length_le
    intro ws member
    rw [← List.count_pos_iff, once, if_pos member]
    exact Nat.one_pos
  · intro all ws
    rw [all, nodup.count]

/-- The sockets that a `publish` goes through. -/
def recipientsOf (r : TopicRegistry τ ω) (topic : τ) (exclude : Option ω) : List ω :=
  (r.subscribers topic).elems.filter fun ws => some ws ≠ exclude

/-- The calls of a `publish`. -/
theorem calls_publish (r : TopicRegistry τ ω) (topic : τ) (message : Message) :
    (r.publish topic message exclude throws).calls =
      if message = .nullish then []
      else takeThrough (fun ws => (throws ws).isSome) (recipientsOf r topic exclude) := by
  rw [TopicRegistry.publish]
  split
  · rename_i empty
    simp [recipientsOf, empty, takeThrough]
  · cases message with
    | nullish => rfl
    | text t => exact calls_sendAll _ _
    | bytes n => exact calls_sendAll _ _

/-- A `publish` calls each recipient once exactly if its message reaches them. -/
theorem count_publish_iff (r : TopicRegistry τ ω) (topic : τ) (message : Message) :
    (∀ ws, (r.publish topic message exclude throws).calls.count ws
        = if ws ∈ recipientsOf r topic exclude then 1 else 0) ↔
      (recipientsOf r topic exclude ≠ [] →
        message ≠ .nullish ∧ ∀ ws ∈ (recipientsOf r topic exclude).dropLast, throws ws = none) := by
  have nodup : (recipientsOf r topic exclude).Nodup := (r.subscribers topic).nodup.filter _
  rw [calls_publish]
  by_cases nullish : message = .nullish
  · rw [if_pos nullish]
    cases reached : recipientsOf r topic exclude with
    | nil => simp
    | cons ws rest =>
      constructor
      · intro once
        have missed := once ws
        simp at missed
      · intro reaches
        exact absurd nullish (reaches (by simp)).1
  · simp only [if_neg nullish, count_takeThrough_iff nodup, Option.isSome_eq_false_iff,
      Option.isNone_iff_eq_none]
    constructor
    · exact fun quiet _ => ⟨nullish, quiet⟩
    · intro reaches ws member
      refine (reaches ?_).2 ws member
      rintro empty
      rw [empty] at member
      cases member

end Publishing

/-- The invariant of the runs in which every call is proper. -/
structure HubInv {τ : Type} [DecidableEq τ] (s : Hub τ) : Prop extends s.Sound where
  known : ∀ ws ∈ s.closed, ws < s.opened

section Invariant

variable {τ : Type} [DecidableEq τ] {s : Hub τ} {ws : Nat} {topic : τ}

/-- The audience of a message is whom the registry sends it to. -/
theorem mem_audience (inv : HubInv s) (exclude : Option Nat) :
    ws ∈ s.audience topic exclude ↔ ws ∈ recipientsOf s.registry topic exclude := by
  rw [Hub.audience, recipientsOf, List.mem_filter, List.mem_filter, inv.subscribed]
  apply and_congr_left
  intro _
  simp

theorem HubInv.subscribe (inv : HubInv s) (live : ws ∉ s.closed) :
    HubInv (s.step (.subscribe ws topic)) := by
  rw [Hub.step]
  split
  · rename_i opened
    have isOpen : s.isOpen ws = true := by simp [Hub.isOpen, opened, live]
    rw [isOpen]
    refine ⟨⟨?_, ?_, ?_, inv.delivered⟩, inv.known⟩
    · intro ws' topic'
      rw [mem_subscribers_subscribe, inv.converse]
      exact mem_topicsOf_subscribe.symm
    · intro ws' topic'
      rw [mem_subscribers_subscribe, inv.subscribed]
      simp [Prod.ext_iff]
    · intro ws' closed topic' member
      rcases mem_subscribers_subscribe.mp member with ⟨rfl, -⟩ | old
      · exact live closed
      · exact inv.noClosed ws' closed topic' old
  · exact inv

theorem HubInv.unsubscribe (inv : HubInv s) : HubInv (s.step (.unsubscribe ws topic)) := by
  rw [Hub.step]
  split
  · refine ⟨⟨?_, ?_, ?_, inv.delivered⟩, inv.known⟩
    · intro ws' topic'
      rw [mem_subscribers_unsubscribe, inv.converse]
      exact mem_topicsOf_unsubscribe.symm
    · intro ws' topic'
      rw [mem_subscribers_unsubscribe, inv.subscribed]
      simp only [List.mem_filter, ne_eq, Prod.mk.injEq, decide_eq_true_eq]
    · intro ws' closed topic' member
      exact inv.noClosed ws' closed topic' (mem_subscribers_unsubscribe.mp member).1
  · exact inv

/-- A socket that closes leaves all its topics. -/
theorem HubInv.close (inv : HubInv s) : HubInv (s.step (.close ws)) := by
  rw [Hub.step]
  split
  · rename_i opened
    have left {ws' : Nat} {topic' : τ} :
        ws' ∈ ((s.registry.cleanup ws).subscribers topic').elems ↔
          ws' ∈ (s.registry.subscribers topic').elems ∧ ws' ≠ ws := by
      rw [mem_subscribers_cleanup]
      apply and_congr_right
      intro member
      rw [not_iff_not, and_iff_left_of_imp]
      rintro rfl
      exact (inv.converse _ _).mp member
    refine ⟨⟨?_, ?_, ?_, inv.delivered⟩, ?_⟩
    · intro ws' topic'
      rw [left, inv.converse]
      exact mem_topicsOf_cleanup.symm
    · intro ws' topic'
      rw [left, inv.subscribed]
      simp
    · intro ws' closed topic' member
      rw [left] at member
      rcases List.mem_cons.mp closed with rfl | old
      · exact member.2 rfl
      · exact inv.noClosed ws' old topic' member.1
    · intro ws' closed
      rcases List.mem_cons.mp closed with rfl | old
      · exact opened
      · exact inv.known ws' old
  · exact inv

variable {message : Message} {exclude : Option Nat} {throws : Nat → Option JsError}

theorem HubInv.publish (inv : HubInv s) (reaches : s.Reaches topic message exclude throws) :
    HubInv (s.publish topic message exclude throws) := by
  refine ⟨⟨inv.converse, inv.subscribed, inv.noClosed, ?_⟩, inv.known⟩
  intro p member ws
  rcases List.mem_append.mp member with old | new
  · exact inv.delivered p old ws
  · rw [List.mem_singleton.mp new]
    simp only [mem_audience inv]
    exact (count_publish_iff s.registry topic message).mpr reaches ws

theorem reaches_of_sound (inv : HubInv s) (sound : (s.publish topic message exclude throws).Sound) :
    s.Reaches topic message exclude throws := by
  apply (count_publish_iff s.registry topic message).mp
  intro ws
  have delivered := sound.delivered _ (List.mem_append_right _ (List.mem_singleton_self _)) ws
  simpa only [mem_audience inv] using delivered

theorem HubInv.step (inv : HubInv s) (e : HubEvent τ) (proper : s.Proper e) :
    HubInv (s.step e) := by
  cases e with
  | «open» =>
    refine ⟨⟨inv.converse, inv.subscribed, inv.noClosed, inv.delivered⟩, ?_⟩
    exact fun ws closed => Nat.lt_succ_of_lt (inv.known ws closed)
  | subscribe ws topic => exact inv.subscribe proper
  | unsubscribe ws topic => exact inv.unsubscribe
  | socketPublish ws topic message throws =>
    rw [Hub.step]
    split
    · rename_i opened
      exact inv.publish (proper opened)
    · exact inv
  | publish topic message throws => exact inv.publish proper
  | close ws => exact inv.close

/-- A call that is not proper shows in the state it reaches. -/
theorem HubInv.proper (inv : HubInv s) (e : HubEvent τ) (sound : (s.step e).Sound) :
    s.Proper e := by
  cases e with
  | «open» => exact trivial
  | subscribe ws topic =>
    intro closed
    have opened := inv.known ws closed
    rw [Hub.step, if_pos opened] at sound
    exact sound.noClosed ws closed topic (mem_subscribers_subscribe.mpr (.inl ⟨rfl, rfl⟩))
  | unsubscribe ws topic => exact trivial
  | socketPublish ws topic message throws =>
    intro opened
    rw [Hub.step, if_pos opened] at sound
    exact reaches_of_sound inv sound
  | publish topic message throws => exact reaches_of_sound inv sound
  | close ws => exact trivial

end Invariant

/-- Over every sequence of calls the registry stays sound exactly when no closed socket subscribes
and every message reaches its recipients. -/
theorem sound_iff_proper {τ : Type} [DecidableEq τ] (events : List (HubEvent τ)) :
    (∀ first, first <+: events → (runFrom Hub.step .start first).Sound) ↔
      Along Hub.step Hub.Proper .start events := by
  apply prefixes_iff_along (I := HubInv)
  · exact fun s e inv proper => inv.step e proper
  · exact fun s e inv sound => inv.proper e sound
  · exact fun s inv => inv.toSound
  · refine ⟨⟨?_, ?_, ?_, ?_⟩, ?_⟩
    · exact fun ws topic => iff_of_false List.not_mem_nil List.not_mem_nil
    · exact fun ws topic => iff_of_false List.not_mem_nil List.not_mem_nil
    · exact fun ws closed => absurd closed List.not_mem_nil
    · exact fun p member => absurd member List.not_mem_nil
    · exact fun ws closed => absurd closed List.not_mem_nil

/-- What a write to a wsi throws for a typed array. -/
def writeError : JsError :=
  ⟨"TypeError".toList, "wsi.write: expected string or ArrayBuffer".toList⟩

/-- A socket that subscribes in its close handler stays a member of the topic, and a `send` that
throws keeps the message from the sockets behind it. -/
theorem closed_member_and_lost_message :
    ¬(runFrom (Hub.step (τ := Nat)) .start [.open, .close 0, .subscribe 0 7]).Sound ∧
      ¬(runFrom (Hub.step (τ := Nat)) .start [.open, .open, .subscribe 0 7, .subscribe 1 7,
        .publish 7 (.bytes 3) fun _ => some writeError]).Sound := by
  constructor
  · intro sound
    have member := sound.noClosed 0 (by decide) 7
    revert member
    decide
  · intro sound
    have missed := sound.delivered ⟨[1, 0], [0]⟩ (by decide) 1
    revert missed
    decide

end QjsLws.WebSocket

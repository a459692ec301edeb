import Murmel.Node.Queue

namespace Murmel.Node

open DownloadQueue

-- What the messages of a call say about the download queue `dq` the call leaves: a `GetData`
-- asks for one witness block, the front of `dq`, and a `GetHeaders` goes out only when `dq` is
-- empty. So the node asks for more headers only once every queued block has arrived.
structure Asks (dq : List Sha256dHash) (events : List Event) : Prop where
  getData : ∀ peer inv, .send peer (.GetData inv) ∈ events →
    ∃ hash, dq.head? = some hash ∧ inv = [⟨.WitnessBlock, hash⟩]
  getHeaders : ∀ peer m, .send peer (.GetHeaders m) ∈ events → dq = []

namespace Asks

variable {dq : List Sha256dHash} {es es' : List Event}

theorem append (h : Asks dq es) (h' : Asks dq es') : Asks dq (es ++ es') where
  getData peer inv hm := (List.mem_append.mp hm).elim (h.getData peer inv) (h'.getData peer inv)
  getHeaders peer m hm := (List.mem_append.mp hm).elim (h.getHeaders peer m) (h'.getHeaders peer m)

theorem of_quiet (h : ∀ e ∈ es, e.isSend = false) : Asks dq es where
  getData peer inv hm := by simpa [Event.isSend] using h _ hm
  getHeaders peer m hm := by simpa [Event.isSend] using h _ hm

theorem nil (dq : List Sha256dHash) : Asks dq [] :=
  of_quiet (by simp)

theorem send_other {peer : PeerId} {msg : NetworkMessage} (hd : ∀ inv, msg ≠ .GetData inv)
    (hh : ∀ m, msg ≠ .GetHeaders m) (he : ∀ e ∈ es, e = .send peer msg) : Asks dq es where
  getData _ inv hm := absurd (Event.send.inj (he _ hm)).2.symm (hd inv)
  getHeaders _ m hm := absurd (Event.send.inj (he _ hm)).2.symm (hh m)

end Asks

variable {τ : Type} (n : Node τ)

theorem send_sent (peer : PeerId) (msg : NetworkMessage) : ∀ e ∈ (n.send peer msg).2, e = .send peer msg := by
  rw [send, PeerMap.send_events]
  split <;> simp

theorem send_getHeaders_asks {dq : List Sha256dHash} (peer : PeerId) (m : GetHeadersMessage) (h : dq = []) :
    Asks dq (n.send peer (.GetHeaders m)).2 :=
  ⟨fun _ _ hm => by simpa using n.send_sent _ _ _ hm, fun _ _ _ => h⟩

theorem downloadBlocks_asks (pid : PeerId) (blocks : List Sha256dHash) (w : World τ) :
    Asks (n.downloadBlocks pid blocks w).2.1.downloadQueue (n.downloadBlocks pid blocks w).2.2 ∧
      ((n.downloadBlocks pid blocks w).1 = .ok false → (n.downloadBlocks pid blocks w).2.1.downloadQueue = []) := by
  have hq : Asks (enqueue w.downloadQueue blocks) [.queue (.enqueue blocks)] := Asks.of_quiet (by simp [Event.isSend])
  unfold downloadBlocks
  dsimp only
  split
  · rename_i ask hask
    have hs : Asks (enqueue w.downloadQueue blocks) (n.send pid (.GetData [⟨.WitnessBlock, ask⟩])).2 :=
      ⟨fun _ _ hm => ⟨ask, hask, NetworkMessage.GetData.inj (Event.send.inj (n.send_sent _ _ _ hm)).2⟩,
        fun _ _ hm => by simpa using n.send_sent _ _ _ hm⟩
    split <;> exact ⟨hq.append hs, by simp⟩
  · exact ⟨hq, fun _ => List.head?_eq_none_iff.mp ‹_›⟩

theorem downloadBlocks_asks_of {pid : PeerId} {blocks : List Sha256dHash} {w w' : World τ}
    {r : Except SPVError Bool} {es : List Event} (h : n.downloadBlocks pid blocks w = (r, w', es)) :
    Asks w'.downloadQueue es := by
  have := (n.downloadBlocks_asks pid blocks w).1
  rwa [h] at this

-- `download_blocks` grows the queue exactly when some block is not queued yet, so a second call
-- with the same blocks queues nothing.
theorem downloadBlocks_again (pid : PeerId) (blocks : List Sha256dHash) (w : World τ) :
    ((n.downloadBlocks pid blocks w).2.1.downloadQueue = w.downloadQueue ↔ ∀ b ∈ blocks, b ∈ w.downloadQueue) ∧
    (n.downloadBlocks pid blocks (n.downloadBlocks pid blocks w).2.1).2.1 = (n.downloadBlocks pid blocks w).2.1 := by
  rw [(n.downloadBlocks_spec pid blocks (n.downloadBlocks pid blocks w).2.1).1, (n.downloadBlocks_spec pid blocks w).1]
  refine ⟨enqueue_eq_self_iff, ?_⟩
  dsimp only
  rw [enqueue_eq_self_iff.mpr fun b hb => mem_enqueue.mpr (.inr hb)]

theorem getHeaders_asks {peer : PeerId} {w w' : World τ} {r : Except SPVError ProcessResult} {es : List Event}
    (h : n.getHeaders peer w = (r, w', es)) : Asks w'.downloadQueue es := by
  obtain ⟨ha, hf⟩ := n.downloadBlocks_asks peer [] w
  unfold getHeaders at h
  rcases hd : n.downloadBlocks peer [] w with ⟨r₀, w₀, es₀⟩
  rw [hd] at ha hf h
  rcases r₀ with _ | _ | _ <;> dsimp only at h
  · cases h; exact ha
  · split at h
    · cases h; exact ha
    · split at h <;> cases h
      · exact ha.append (n.send_getHeaders_asks _ _ (hf rfl))
      · exact ha
  · cases h; exact ha

theorem getHeaders_queue {peer : PeerId} {w w' : World τ} {r : Except SPVError ProcessResult} {es : List Event}
    (h : n.getHeaders peer w = (r, w', es)) : w'.downloadQueue = w.downloadQueue := by
  have hq := congrArg World.downloadQueue (n.getHeaders_spec peer w).1
  rw [h] at hq
  exact hq

theorem headerStep_ret {fuel : Nat} {header : LoneBlockHeader} {acc : HeadersTx τ}
    {r : Except SPVError ProcessResult} (h : n.headerStep fuel header acc = .ret r) :
    r = .ok .Ignored ∨ r = .ok (.Ban 100) ∨ ∃ e, r = .error e := by
  unfold headerStep at h
  dsimp only at h
  repeat' split at h
  all_goals cases h
  all_goals first | exact .inl rfl | exact .inr (.inl rfl) | exact .inr (.inr ⟨_, rfl⟩)

theorem headersLoop_ret {fuel : Nat} {headers : List LoneBlockHeader} {acc : HeadersTx τ}
    {r : Except SPVError ProcessResult} (h : n.headersLoop fuel headers acc = .ret r) :
    r = .ok .Ignored ∨ r = .ok (.Ban 100) ∨ ∃ e, r = .error e := by
  induction headers generalizing acc with
  | nil => cases h
  | cons header rest ih =>
    unfold headersLoop at h
    split at h
    · exact ih h
    · cases h; exact n.headerStep_ret ‹_›
    · cases h

-- What `headers` can do: reject the message and leave everything as it was, or commit the
-- transaction of its `insert_header` loop; then answer `Ban(5)` when the tip never moved, and
-- otherwise queue the new blocks and, unless that fails, notify and ask for more.
theorem headers_cases {fuel : Nat} {headers : List LoneBlockHeader} {peer : PeerId} {w : World τ}
    {o : Outcome (World τ)} (h : n.headers fuel headers peer w = some o) :
    (o.world = w ∧ o.events = [] ∧ (o.result = .ok .Ignored ∨ o.result = .ok (.Ban 100) ∨ ∃ e, o.result = .error e)) ∨
    ∃ tx acc db, n.db.transaction w.db = .ok tx ∧ n.headersLoop fuel headers ⟨tx, [], [], false, false⟩ = .next acc ∧
      n.db.commit acc.tx = .ok db ∧
      ((acc.tipMoved = false ∧ o = ⟨.ok (.Ban 5), { w with db }, []⟩) ∨
        ∃ tip stored r w' es, acc.tipMoved = true ∧ n.db.getTip acc.tx = .ok (some tip) ∧
          n.db.getHeader acc.tx tip = some stored ∧ n.downloadBlocks peer acc.download { w with db } = (r, w', es) ∧
          ((∃ e, r = .error e ∧ o = ⟨.error e, w', es⟩) ∨ ∃ b, r = .ok b ∧ o = n.notifyAndAsk peer stored.height acc w' es)) := by
  unfold Node.headers at h
  repeat' split at h
  all_goals cases h
  all_goals first
    | exact .inl ⟨rfl, rfl, .inr (.inr ⟨_, rfl⟩)⟩
    | exact .inl ⟨rfl, rfl, .inl rfl⟩
    | exact .inl ⟨rfl, rfl, n.headersLoop_ret ‹_›⟩
    | exact .inr ⟨_, _, _, ‹_›, ‹_›, ‹_›, .inl ⟨eq_false_of_ne_true ‹_›, rfl⟩⟩
    | exact .inr ⟨_, _, _, ‹_›, ‹_›, ‹_›, .inr ⟨_, _, _, _, _, ‹_›, ‹_›, ‹_›, ‹_›, .inl ⟨_, rfl, rfl⟩⟩⟩
    | exact .inr ⟨_, _, _, ‹_›, ‹_›, ‹_›, .inr ⟨_, _, _, _, _, ‹_›, ‹_›, ‹_›, ‹_›, .inr ⟨_, rfl, rfl⟩⟩⟩

section Handlers

variable (peer : PeerId) (w : World τ)

theorem connected_asks : Asks (n.connected peer w).world.downloadQueue (n.connected peer w).events := by
  unfold connected
  split <;> exact n.getHeaders_asks ‹_›

theorem ping_asks (nonce : UInt64) : Asks (n.ping nonce peer w).world.downloadQueue (n.ping nonce peer w).events :=
  Asks.send_other (fun _ => NetworkMessage.noConfusion) (fun _ => NetworkMessage.noConfusion) (n.send_sent peer _)

theorem block_asks (b : Block) : Asks (n.block b peer w).world.downloadQueue (n.block b peer w).events := by
  unfold block
  split
  · exact Asks.nil _
  · split
    · exact Asks.nil _
    · dsimp only
      split <;> exact (Asks.of_quiet (by simp [Event.isSend])).append (n.getHeaders_asks ‹_›)

theorem inv_asks (v : List Inventory) : Asks (n.inv v peer w).world.downloadQueue (n.inv v peer w).events := by
  suffices ∀ ask, Asks (inv.go n peer w v ask).world.downloadQueue (inv.go n peer w v ask).events from this false
  induction v with
  | nil =>
    intro ask
    unfold inv.go
    split
    · split <;> exact n.getHeaders_asks ‹_›
    · exact Asks.nil _
  | cons inventory v ih =>
    intro ask
    unfold inv.go
    split
    · split
      · exact Asks.nil _
      · exact ih _
    · exact Asks.nil _

theorem notifyAndAsk_asks (height : UInt32) (acc : HeadersTx τ) {events : List Event}
    (h : Asks w.downloadQueue events) :
    Asks (n.notifyAndAsk peer height acc w events).world.downloadQueue (n.notifyAndAsk peer height acc w events).events := by
  have hd : Asks w.downloadQueue (events ++ acc.disconnected.map .blockDisconnected) :=
    h.append (Asks.of_quiet (by simp [Event.isSend]))
  unfold notifyAndAsk
  dsimp only
  split
  · split <;> exact ((n.getHeaders_queue ‹_›).symm ▸ hd).append (n.getHeaders_asks ‹_›)
  · exact hd

theorem headers_asks {fuel : Nat} {headers : List LoneBlockHeader} {o : Outcome (World τ)}
    (h : n.headers fuel headers peer w = some o) : Asks o.world.downloadQueue o.events := by
  rcases n.headers_cases h with ⟨_, he, _⟩ | ⟨_, _, _, _, _, _, hc⟩
  · exact he ▸ Asks.nil _
  rcases hc with ⟨_, ho⟩ | ⟨_, _, _, _, _, _, _, _, hd, ⟨_, _, ho⟩ | ⟨_, _, ho⟩⟩ <;> rw [ho]
  · exact Asks.nil _
  · exact n.downloadBlocks_asks_of hd
  · exact n.notifyAndAsk_asks peer _ _ _ (n.downloadBlocks_asks_of hd)

end Handlers

theorem handle_asks {fuel : Nat} {now : UInt32} {i : Input} {w : World τ} {o : Outcome (World τ)}
    (h : n.handle fuel now i w = some o) : Asks o.world.downloadQueue o.events := by
  unfold handle at h
  split at h
  · cases h; exact n.connected_asks _ w
  · cases h; exact Asks.nil _
  · unfold process at h
    split at h
    · cases h; exact n.ping_asks _ w _
    · exact n.headers_asks _ w h
    · cases h; exact n.block_asks _ w _
    · cases h; exact n.inv_asks _ w _
    · cases h; unfold addr; split <;> exact Asks.nil _
    · cases h; exact Asks.nil _

-- Over any run, every message the node sends is read off the download queue as the logged queue
-- operations up to the end of its step have left it: a `GetData` asks for that queue's front, and
-- a `GetHeaders` goes out only when it is empty.
theorem run_sends_follow_queue {w w' : World τ} {steps : List (Input × List Event)} (h : n.Run w steps w') :
    ∀ pre i es post, steps = pre ++ (i, es) :: post →
      Asks (replay w.downloadQueue (queueOps ((pre ++ [(i, es)]).flatMap (·.2)))) es := by
  induction h with
  | nil => intro pre _ _ _ hs; simp at hs
  | cons hstep _ ih =>
    rintro (_ | ⟨p, pre⟩) i es post hs
    · obtain ⟨⟨rfl, rfl⟩, -⟩ := List.cons.inj hs
      simpa [← (n.handle_replays hstep).queue] using n.handle_asks hstep
    · obtain ⟨rfl, hs'⟩ := List.cons.inj hs
      rw [List.cons_append, List.flatMap_cons, queueOps_append, replay_append, ← (n.handle_replays hstep).queue]
      exact ih pre i es post hs'

-- A peer announces a header and then delivers its block: the node asks for the block while it is
-- queued, and for more headers once it has arrived.
open MemStore in
theorem run_sends_follow_queue_sync :
    (Node.mk configDB ⟨[(7, ⟨false⟩)], by decide⟩ hash).Run ⟨chain, []⟩
      [(.process (.Headers [⟨header 3 4⟩]) 7,
          [.queue (.enqueue [4]), .send 7 (.GetData [⟨.WitnessBlock, 4⟩]), .queue (.enqueue []),
            .send 7 (.GetData [⟨.WitnessBlock, 4⟩])]),
        (.process (.Block ⟨header 3 4⟩) 7,
          [.queue (.popIf 4), .queue (.enqueue []), .send 7 (.GetHeaders ⟨[4, 3, 2, 1], 4⟩)])]
      ⟨{ chain with headers := chain.headers ++ [(4, ⟨header 3 4, 3⟩)], tip := 4 }, []⟩ ∧
    ∀ (pre : List (Input × List Event)) (i : Input) (es : List Event) (post : List (Input × List Event)),
      [(.process (.Headers [⟨header 3 4⟩]) 7,
          [.queue (.enqueue [4]), .send 7 (.GetData [⟨.WitnessBlock, 4⟩]), .queue (.enqueue []),
            .send 7 (.GetData [⟨.WitnessBlock, 4⟩])]),
        (.process (.Block ⟨header 3 4⟩) 7,
          [.queue (.popIf 4), .queue (.enqueue []), .send 7 (.GetHeaders ⟨[4, 3, 2, 1], 4⟩)])] =
        pre ++ (i, es) :: post →
      Asks (replay [] (queueOps ((pre ++ [(i, es)]).flatMap (·.2)))) es := by
  refine (fun hrun => ⟨hrun, run_sends_follow_queue _ hrun⟩) ?_
  exact @Run.cons _ _ _ _ 1 0 _
    ⟨.ok (.Height 3), ⟨{ chain with headers := chain.headers ++ [(4, ⟨header 3 4, 3⟩)], tip := 4 }, [4]⟩,
      [.queue (.enqueue [4]), .send 7 (.GetData [⟨.WitnessBlock, 4⟩]), .queue (.enqueue []),
        .send 7 (.GetData [⟨.WitnessBlock, 4⟩])]⟩ _ (by decide)
    (@Run.cons _ _ _ _ 1 0 _
      ⟨.ok .Ack, ⟨{ chain with headers := chain.headers ++ [(4, ⟨header 3 4, 3⟩)], tip := 4 }, []⟩,
        [.queue (.popIf 4), .queue (.enqueue []), .send 7 (.GetHeaders ⟨[4, 3, 2, 1], 4⟩)]⟩ _ (by decide) (.nil _))

-- `headers` calls `download_blocks(peer, download)`: its transaction opened, its loop ended with the
-- tip moved, the new tip was read back and the transaction committed; `download` is the list of new
-- tips the loop collected.
def Downloads (fuel : Nat) (headers : List LoneBlockHeader) (w : World τ) (download : List Sha256dHash) :
    Prop :=
  ∃ tx acc tip stored db, n.db.transaction w.db = .ok tx ∧
    n.headersLoop fuel headers ⟨tx, [], [], false, false⟩ = .next acc ∧ n.db.getTip acc.tx = .ok (some tip) ∧
    n.db.getHeader acc.tx tip = some stored ∧ acc.tipMoved = true ∧ n.db.commit acc.tx = .ok db ∧
    acc.download = download

-- `block` stores the delivered block: its transaction opened and `store_block` succeeded.
def Stores (b : Block) (w : World τ) : Prop :=
  ∃ tx tx', n.db.transaction w.db = .ok tx ∧ n.db.storeBlock tx b = .ok tx'

/-- What one handler call does to the download queue, from `w` to `w'`: `block` pops the front
when it stored the block and the front is that block's hash, `headers` appends a suffix of the list
it passes to `download_blocks` when it calls it, and nothing else changes the queue. -/
structure QueueStep (fuel : Nat) (i : Input) (w w' : World τ) : Prop where
  block : ∀ b peer, i = .process (.Block b) peer →
    (n.Stores b w → w'.downloadQueue =
      if w.downloadQueue.head? = some (n.bitcoinHash b.header) then w.downloadQueue.tail else w.downloadQueue) ∧
    (¬n.Stores b w → w'.downloadQueue = w.downloadQueue)
  headers : ∀ headers peer, i = .process (.Headers headers) peer →
    (∀ download, n.Downloads fuel headers w download → ∃ k, w'.downloadQueue = w.downloadQueue ++ download.drop k) ∧
    ((∀ download, ¬n.Downloads fuel headers w download) → w'.downloadQueue = w.downloadQueue)
  other : (∀ b peer, i ≠ .process (.Block b) peer) → (∀ headers peer, i ≠ .process (.Headers headers) peer) →
    w'.downloadQueue = w.downloadQueue

theorem QueueStep.of_other {fuel : Nat} {i : Input} {w w' : World τ}
    (hb : ∀ b peer, i ≠ .process (.Block b) peer) (hh : ∀ headers peer, i ≠ .process (.Headers headers) peer)
    (h : w'.downloadQueue = w.downloadQueue) : n.QueueStep fuel i w w' :=
  ⟨fun b peer hi => absurd hi (hb b peer), fun headers peer hi => absurd hi (hh headers peer), fun _ _ => h⟩

section Handlers

variable (peer : PeerId) (w : World τ)

theorem notifyAndAsk_queue (height : UInt32) (acc : HeadersTx τ) (events : List Event) :
    (n.notifyAndAsk peer height acc w events).world.downloadQueue = w.downloadQueue := by
  unfold notifyAndAsk
  dsimp only
  split
  · split <;> exact n.getHeaders_queue ‹_›
  · rfl

theorem headers_queue {fuel : Nat} {headers : List LoneBlockHeader} {o : Outcome (World τ)}
    (h : n.headers fuel headers peer w = some o) :
    (∀ download, n.Downloads fuel headers w download →
      o.world.downloadQueue = enqueue w.downloadQueue download) ∧
    ((∀ download, ¬n.Downloads fuel headers w download) → o.world.downloadQueue = w.downloadQueue) := by
  refine ⟨fun download hd => ?_, fun hd => ?_⟩
  · obtain ⟨tx, acc, tip, stored, db, htx, hloop, htip, hget, hmoved, hc, rfl⟩ := hd
    have hne : headers.length > 0 := by
      rcases headers with _ | ⟨_, _⟩
      · cases hloop
        cases hmoved
      · exact Nat.succ_pos _
    have hw := congrArg World.downloadQueue (n.downloadBlocks_spec peer acc.download { w with db }).1
    simp only [Node.headers, if_pos hne, htx, hloop, htip, hget, hmoved, if_true, hc] at h
    rcases hb : n.downloadBlocks peer acc.download { w with db } with ⟨_ | _, w', es⟩ <;>
      rw [hb] at h hw <;> cases h
    · exact hw
    · exact (n.notifyAndAsk_queue peer w' _ _ _).trans hw
  · rcases n.headers_cases h with ⟨hw, -⟩ | ⟨tx, acc, db, htx, hloop, hc, ⟨-, rfl⟩ | ⟨tip, stored, _, _, _, hm, htip, hget, -⟩⟩
    · rw [hw]
    · rfl
    · exact absurd ⟨tx, acc, tip, stored, db, htx, hloop, htip, hget, hm, hc, rfl⟩ (hd acc.download)

theorem block_queue (b : Block) :
    (n.Stores b w → (n.block b peer w).world.downloadQueue =
      if w.downloadQueue.head? = some (n.bitcoinHash b.header) then w.downloadQueue.tail else w.downloadQueue) ∧
    (¬n.Stores b w → (n.block b peer w).world.downloadQueue = w.downloadQueue) := by
  unfold block
  split
  · rename_i e htx
    exact ⟨fun ⟨_, _, h, _⟩ => (nomatch htx.symm.trans h), fun _ => rfl⟩
  · rename_i tx htx
    split
    · rename_i e hs
      refine ⟨fun ⟨_, _, h, h'⟩ => ?_, fun _ => rfl⟩
      cases htx.symm.trans h
      exact nomatch hs.symm.trans h'
    · rename_i tx' hs
      refine ⟨fun _ => ?_, fun h => (h ⟨tx, tx', htx, hs⟩).elim⟩
      dsimp only
      rw [← popIf_eq]
      split <;> exact n.getHeaders_queue ‹_›

theorem inv_queue (v : List Inventory) : (n.inv v peer w).world.downloadQueue = w.downloadQueue := by
  suffices ∀ ask, (inv.go n peer w v ask).world.downloadQueue = w.downloadQueue from this false
  induction v with
  | nil =>
    intro ask
    unfold inv.go
    split
    · split <;> exact n.getHeaders_queue ‹_›
    · rfl
  | cons inventory v ih =>
    intro ask
    unfold inv.go
    split
    · split
      · rfl
      · exact ih _
    · rfl

end Handlers

theorem handle_queueStep {fuel : Nat} {now : UInt32} {i : Input} {w : World τ} {o : Outcome (World τ)}
    (h : n.handle fuel now i w = some o) : n.QueueStep fuel i w o.world := by
  unfold handle at h
  split at h
  · cases h
    exact .of_other n nofun nofun (by unfold connected; split <;> exact n.getHeaders_queue ‹_›)
  · cases h
    exact .of_other n nofun nofun rfl
  · rename_i msg peer
    unfold process at h
    split at h
    · cases h
      exact .of_other n nofun nofun rfl
    · refine ⟨nofun, fun headers' peer' hi => ?_, fun _ hh => absurd rfl (hh _ peer)⟩
      cases hi
      obtain ⟨h₁, h₂⟩ := n.headers_queue peer w h
      refine ⟨fun download hd => ?_, h₂⟩
      rw [h₁ download hd]
      exact enqueue_eq_append_drop
    · cases h
      exact ⟨fun b' peer' hi => by cases hi; exact n.block_queue peer w _, nofun, fun hb _ => absurd rfl (hb _ peer)⟩
    · cases h
      exact .of_other n nofun nofun (n.inv_queue peer w _)
    · cases h
      exact .of_other n nofun nofun (by unfold addr; split <;> rfl)
    · cases h
      rename_i hh hb _ _
      exact .of_other n (fun b _ hi => by cases hi; exact hb b rfl) (fun v _ hi => by cases hi; exact hh v rfl) rfl

/-- Over any run, under any interleaving of handlers across peers, the download queue keeps its
order, and each step changes it only as `QueueStep` says: `download_blocks` appending a suffix of the
list `headers` passes it, `block` popping the front when that is the block it stored. Each hash of
that list is in the queue from that call on, to the end of the run, unless a block of that hash
is processed after it. -/
theorem run_downloadQueue {w w' : World τ} {steps : List (Input × List Event)} (h : n.Run w steps w') :
    (∃ k new, w'.downloadQueue = w.downloadQueue.drop k ++ new) ∧
    ∀ pre i events post, steps = pre ++ (i, events) :: post →
      ∃ w₁ fuel now o, n.Run w pre w₁ ∧ n.handle fuel now i w₁ = some o ∧ events = o.events ∧
        n.Run o.world post w' ∧ n.QueueStep fuel i w₁ o.world ∧
        ∀ headers peer download, i = .process (.Headers headers) peer → n.Downloads fuel headers w₁ download →
          ∀ x ∈ download, x ∈ w'.downloadQueue ∨
            ∃ b peer' es, (.process (.Block b) peer', es) ∈ post ∧ n.bitcoinHash b.header = x := by
  refine ⟨h.replays ▸ replay_eq_drop_append _ _, fun pre i events post hs => ?_⟩
  subst hs
  obtain ⟨w₁, fuel, now, o, hpre, hstep, rfl, hpost⟩ := h.split
  refine ⟨w₁, fuel, now, o, hpre, hstep, rfl, hpost, n.handle_queueStep hstep, ?_⟩
  rintro headers peer download rfl hd x hx
  have hq := (n.headers_queue peer w₁ hstep).1 download hd
  exact hpost.mem (hq ▸ mem_enqueue.mpr (.inr hx))

-- The run of a peer that announces block 4's header and then delivers the block.
open MemStore in
def syncSteps : List (Input × List Event) :=
  [(.process (.Headers [⟨header 3 4⟩]) 7,
      [.queue (.enqueue [4]), .send 7 (.GetData [⟨.WitnessBlock, 4⟩]), .queue (.enqueue []),
        .send 7 (.GetData [⟨.WitnessBlock, 4⟩])]),
    (.process (.Block ⟨header 3 4⟩) 7,
      [.queue (.popIf 4), .queue (.enqueue []), .send 7 (.GetHeaders ⟨[4, 3, 2, 1], 4⟩)])]

open MemStore in
theorem run_downloadQueue_sync :
    (Node.mk configDB ⟨[(7, ⟨false⟩)], by decide⟩ hash).Run ⟨chain, []⟩ syncSteps
      ⟨{ chain with headers := chain.headers ++ [(4, ⟨header 3 4, 3⟩)], tip := 4 }, []⟩ ∧
    (∃ k new, ([] : List Sha256dHash) = ([] : List Sha256dHash).drop k ++ new) ∧
    ∀ pre i events post, syncSteps = pre ++ (i, events) :: post →
      ∃ w₁ fuel now o, (Node.mk configDB ⟨[(7, ⟨false⟩)], by decide⟩ hash).Run ⟨chain, []⟩ pre w₁ ∧
        (Node.mk configDB ⟨[(7, ⟨false⟩)], by decide⟩ hash).handle fuel now i w₁ = some o ∧ events = o.events ∧
        (Node.mk configDB ⟨[(7, ⟨false⟩)], by decide⟩ hash).Run o.world post
          ⟨{ chain with headers := chain.headers ++ [(4, ⟨header 3 4, 3⟩)], tip := 4 }, []⟩ ∧
        (Node.mk configDB ⟨[(7, ⟨false⟩)], by decide⟩ hash).QueueStep fuel i w₁ o.world ∧
        ∀ headers peer download, i = .process (.Headers headers) peer →
          (Node.mk configDB ⟨[(7, ⟨false⟩)], by decide⟩ hash).Downloads fuel headers w₁ download →
          ∀ x ∈ download, x ∈ ([] : List Sha256dHash) ∨
            ∃ (b : Block) (peer' : PeerId) (es : List Event), (.process (.Block b) peer', es) ∈ post ∧ MemStore.hash b.header = x := by
  refine (fun hrun => ⟨hrun, run_downloadQueue _ hrun⟩) ?_
  exact @Run.cons _ _ _ _ 1 0 _
    ⟨.ok (.Height 3), ⟨{ chain with headers := chain.headers ++ [(4, ⟨header 3 4, 3⟩)], tip := 4 }, [4]⟩,
      [.queue (.enqueue [4]), .send 7 (.GetData [⟨.WitnessBlock, 4⟩]), .queue (.enqueue []),
        .send 7 (.GetData [⟨.WitnessBlock, 4⟩])]⟩ _ (by decide)
    (@Run.cons _ _ _ _ 1 0 _
      ⟨.ok .Ack, ⟨{ chain with headers := chain.headers ++ [(4, ⟨header 3 4, 3⟩)], tip := 4 }, []⟩,
        [.queue (.popIf 4), .queue (.enqueue []), .send 7 (.GetHeaders ⟨[4, 3, 2, 1], 4⟩)]⟩ _ (by decide) (.nil _))

end Murmel.Node

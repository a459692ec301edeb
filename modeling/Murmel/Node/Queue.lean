import Murmel.Node.Headers
import Murmel.Objects.MemStore

namespace Murmel

def Event.queueOp : Event → Option DownloadQueue.Op
  | .queue op => some op
  | _ => none

namespace Node

open DownloadQueue

-- The download queue operations among a handler's calls, in order.
def queueOps (events : List Event) : List Op :=
  events.filterMap Event.queueOp

@[simp] theorem queueOps_nil : queueOps [] = [] := rfl

@[simp] theorem queueOps_append (e e' : List Event) : queueOps (e ++ e') = queueOps e ++ queueOps e' :=
  List.filterMap_append _ _ _

@[simp] theorem queueOps_queue (op : Op) (events : List Event) :
    queueOps (.queue op :: events) = op :: queueOps events := rfl

@[simp] theorem queueOps_blockDisconnected (headers : List BlockHeader) :
    queueOps (headers.map .blockDisconnected) = [] := by
  simp [queueOps, List.filterMap_map, Event.queueOp]

variable {τ : Type} (n : Node τ)

@[simp] theorem queueOps_send (peer : PeerId) (msg : NetworkMessage) : queueOps (n.send peer msg).2 = [] := by
  rw [send, PeerMap.send_events]
  split <;> rfl

-- `download_blocks` changes only the queue, by the `enqueue` it logs.
theorem downloadBlocks_spec (pid : PeerId) (blocks : List Sha256dHash) (w : World τ) :
    (n.downloadBlocks pid blocks w).2.1 = { w with downloadQueue := enqueue w.downloadQueue blocks } ∧
      queueOps (n.downloadBlocks pid blocks w).2.2 = [.enqueue blocks] := by
  unfold downloadBlocks
  dsimp only
  split
  · split <;> simp
  · simp

-- `get_headers` changes only the queue, by the `download_blocks(peer, [])` it starts with.
theorem getHeaders_spec (peer : PeerId) (w : World τ) :
    (n.getHeaders peer w).2.1 = { w with downloadQueue := enqueue w.downloadQueue [] } ∧
      queueOps (n.getHeaders peer w).2.2 = [.enqueue []] := by
  obtain ⟨hw, he⟩ := n.downloadBlocks_spec peer [] w
  unfold getHeaders
  rcases h : n.downloadBlocks peer [] w with ⟨r, w', es⟩
  rw [h] at hw he
  subst hw
  rcases r with _ | _ | _
  · exact ⟨rfl, he⟩
  · dsimp only
    split
    · exact ⟨rfl, he⟩
    · split <;> simp [he]
  · exact ⟨rfl, he⟩

@[simp] theorem getHeaders_db (peer : PeerId) (w : World τ) : (n.getHeaders peer w).2.1.db = w.db := by
  rw [(n.getHeaders_spec peer w).1]

-- `w'` is `w` with its download queue as the logged queue operations leave it, all of them
-- `enqueue`s.
structure Frame (w w' : World τ) (events : List Event) : Prop where
  replays : w'.downloadQueue = replay w.downloadQueue (queueOps events)
  enqueues : ∀ x, .popIf x ∉ queueOps events

namespace Frame

variable {w w₁ w₂ w₃ : World τ} {es es₁ es₂ : List Event}

theorem of_queueOps_nil (hq : w'.downloadQueue = w.downloadQueue) (he : queueOps es = []) :
    Frame w w' es :=
  ⟨by simp [hq, he], by simp [he]⟩

theorem refl (w : World τ) : Frame w w [] :=
  of_queueOps_nil rfl rfl

theorem trans (h₁ : Frame w₁ w₂ es₁) (h₂ : Frame w₂ w₃ es₂) : Frame w₁ w₃ (es₁ ++ es₂) :=
  ⟨by rw [h₂.replays, h₁.replays, queueOps_append, replay_append],
    fun x hx => (List.mem_append.mp (queueOps_append es₁ es₂ ▸ hx)).elim (h₁.enqueues x) (h₂.enqueues x)⟩

theorem of_queue_eq {w₀ : World τ} (h : Frame w₀ w' es) (hq : w₀.downloadQueue = w.downloadQueue) :
    Frame w w' es :=
  ⟨hq ▸ h.replays, h.enqueues⟩

theorem enqueue (w : World τ) (blocks : List Sha256dHash) (es : List Event) (he : queueOps es = [.enqueue blocks]) :
    Frame w { w with downloadQueue := DownloadQueue.enqueue w.downloadQueue blocks } es :=
  ⟨by simp [he, Op.apply], by simp [he]⟩

end Frame

theorem downloadBlocks_frame {pid : PeerId} {blocks : List Sha256dHash} {w w' : World τ} {r : Except SPVError Bool}
    {es : List Event} (h : n.downloadBlocks pid blocks w = (r, w', es)) : Frame w w' es := by
  obtain ⟨hw, he⟩ := n.downloadBlocks_spec pid blocks w
  simp only [h] at hw he
  exact hw ▸ Frame.enqueue w blocks es he

theorem getHeaders_frame {peer : PeerId} {w w' : World τ} {r : Except SPVError ProcessResult}
    {es : List Event} (h : n.getHeaders peer w = (r, w', es)) : Frame w w' es := by
  obtain ⟨hw, he⟩ := n.getHeaders_spec peer w
  simp only [h] at hw he
  exact hw ▸ Frame.enqueue w [] es he

section Handlers

variable (peer : PeerId) (w : World τ)

theorem connected_frame : Frame w (n.connected peer w).world (n.connected peer w).events := by
  unfold connected
  split <;> exact n.getHeaders_frame ‹_›

theorem ping_frame (nonce : UInt64) : Frame w (n.ping nonce peer w).world (n.ping nonce peer w).events := by
  unfold ping
  rcases h : n.send peer (.Pong nonce) with ⟨r, es⟩
  exact Frame.of_queueOps_nil rfl (h ▸ n.queueOps_send peer _)

theorem inv_frame (v : List Inventory) : Frame w (n.inv v peer w).world (n.inv v peer w).events := by
  suffices ∀ ask, Frame w (inv.go n peer w v ask).world (inv.go n peer w v ask).events from this false
  induction v with
  | nil =>
    intro ask
    unfold inv.go
    split
    · split <;> exact n.getHeaders_frame ‹_›
    · exact Frame.refl w
  | cons inventory v ih =>
    intro ask
    unfold inv.go
    split
    · split
      · exact Frame.refl w
      · exact ih _
    · exact Frame.refl w

theorem addr_frame (v : List (UInt32 × Address)) (now : UInt32) :
    Frame w (n.addr v peer now w).world (n.addr v peer now w).events := by
  unfold addr
  split
  · exact Frame.of_queueOps_nil rfl rfl
  · exact Frame.refl w

theorem notifyAndAsk_frame (height : UInt32) (acc : HeadersTx τ) (events : List Event) :
    ∃ rest, (n.notifyAndAsk peer height acc w events).events = events ++ rest ∧
      Frame w (n.notifyAndAsk peer height acc w events).world rest := by
  have hd := Frame.of_queueOps_nil (w := w) rfl (queueOps_blockDisconnected acc.disconnected)
  unfold notifyAndAsk
  dsimp only
  split
  · split <;> exact ⟨_, List.append_assoc _ _ _, hd.trans (n.getHeaders_frame ‹_›)⟩
  · exact ⟨_, rfl, hd⟩

theorem downloadBlocks_frame_db {blocks : List Sha256dHash} {db : τ} {w' : World τ} {r : Except SPVError Bool}
    {es : List Event} (h : n.downloadBlocks peer blocks { w with db } = (r, w', es)) : Frame w w' es :=
  (n.downloadBlocks_frame h).of_queue_eq rfl

-- The end of `headers` once the tip moved: the blocks to download, then `notifyAndAsk`.
theorem notify_frame {download : List Sha256dHash} {db : τ} {w' : World τ} {r : Except SPVError Bool}
    {es : List Event} {height : UInt32} {acc : HeadersTx τ}
    (h : n.downloadBlocks peer download { w with db } = (r, w', es)) :
    Frame w (n.notifyAndAsk peer height acc w' es).world (n.notifyAndAsk peer height acc w' es).events := by
  obtain ⟨rest, he, hf⟩ := n.notifyAndAsk_frame peer w' height acc es
  rw [he]
  exact (n.downloadBlocks_frame_db peer w h).trans hf

theorem headers_frame {fuel : Nat} {headers : List LoneBlockHeader} {o : Outcome (World τ)}
    (h : n.headers fuel headers peer w = some o) : Frame w o.world o.events := by
  unfold Node.headers at h
  repeat' split at h
  all_goals cases h
  all_goals first
    | exact Frame.refl w
    | exact Frame.of_queueOps_nil rfl rfl
    | exact n.downloadBlocks_frame_db peer w ‹_›
    | exact n.notify_frame peer w ‹_›

theorem block_replays (b : Block) :
    (n.block b peer w).world.downloadQueue = replay w.downloadQueue (queueOps (n.block b peer w).events) ∧
      ∀ x, .popIf x ∈ queueOps (n.block b peer w).events → x = n.bitcoinHash b.header := by
  unfold block
  split
  · simp
  · split
    · simp
    · dsimp only
      split <;>
      · have hf := n.getHeaders_frame ‹_›
        simp only [queueOps_append, queueOps_queue, queueOps_nil, List.singleton_append, replay_cons]
        refine ⟨hf.replays, fun x hx => ?_⟩
        rcases List.mem_cons.mp hx with hx | hx
        · exact Op.popIf.inj hx
        · exact absurd hx (hf.enqueues x)

end Handlers

-- A handler call leaves the download queue as the queue operations it logged leave it, and only
-- a `Block` pops, the hash of the delivered block.
structure Replays (i : Input) (w : World τ) (o : Outcome (World τ)) : Prop where
  queue : o.world.downloadQueue = replay w.downloadQueue (queueOps o.events)
  popIf : ∀ x, .popIf x ∈ queueOps o.events → ∃ b peer, i = .process (.Block b) peer ∧ n.bitcoinHash b.header = x

theorem Frame.replays_of {i : Input} {w : World τ} {o : Outcome (World τ)} (hf : Frame w o.world o.events) :
    n.Replays i w o :=
  ⟨hf.replays, fun x hx => absurd hx (hf.enqueues x)⟩

theorem handle_replays {fuel : Nat} {now : UInt32} {i : Input} {w : World τ} {o : Outcome (World τ)}
    (h : n.handle fuel now i w = some o) : n.Replays i w o := by
  have frame : Frame w o.world o.events → n.Replays i w o := Frame.replays_of n
  unfold handle at h
  split at h
  · obtain rfl := Option.some.inj h
    exact frame (n.connected_frame _ w)
  · obtain rfl := Option.some.inj h
    exact frame (Frame.refl w)
  · rename_i msg peer
    unfold process at h
    split at h
    · obtain rfl := Option.some.inj h
      exact frame (n.ping_frame peer w _)
    · exact frame (n.headers_frame peer w h)
    · obtain rfl := Option.some.inj h
      obtain ⟨hq, hb⟩ := n.block_replays peer w _
      exact ⟨hq, fun x hx => ⟨_, peer, rfl, (hb x hx).symm⟩⟩
    · obtain rfl := Option.some.inj h
      exact frame (n.inv_frame peer w _)
    · obtain rfl := Option.some.inj h
      exact frame (n.addr_frame peer w _ _)
    · obtain rfl := Option.some.inj h
      exact frame (Frame.refl w)

-- A run of the node: handler calls one after another, each on the world the last one left, every
-- call with its own clock and bound on the reorg walk; each step keeps the input and the calls made.
inductive Run (n : Node τ) : World τ → List (Input × List Event) → World τ → Prop
  | nil (w : World τ) : Run n w [] w
  | cons {w w' : World τ} {fuel : Nat} {now : UInt32} {i : Input} {o : Outcome (World τ)}
      {steps : List (Input × List Event)} (h : n.handle fuel now i w = some o)
      (rest : Run n o.world steps w') : Run n w ((i, o.events) :: steps) w'

namespace Run

variable {n} {w w' : World τ} {steps : List (Input × List Event)}

theorem replays (h : n.Run w steps w') :
    w'.downloadQueue = replay w.downloadQueue (queueOps (steps.flatMap (·.2))) := by
  induction h with
  | nil => rfl
  | cons h _ ih => rw [ih, (n.handle_replays h).queue, List.flatMap_cons, queueOps_append, replay_append]

theorem popIf_block (h : n.Run w steps w') {x : Sha256dHash} (hx : .popIf x ∈ queueOps (steps.flatMap (·.2))) :
    ∃ b peer events, (.process (.Block b) peer, events) ∈ steps ∧ n.bitcoinHash b.header = x := by
  induction h with
  | nil => cases hx
  | cons h _ ih =>
    rw [List.flatMap_cons, queueOps_append, List.mem_append] at hx
    rcases hx with hx | hx
    · obtain ⟨b, peer, rfl, hb⟩ := (n.handle_replays h).popIf x hx
      exact ⟨b, peer, _, List.mem_cons_self _ _, hb⟩
    · obtain ⟨b, peer, events, hm, hb⟩ := ih hx
      exact ⟨b, peer, events, List.mem_cons_of_mem _ hm, hb⟩

theorem split {pre post : List (Input × List Event)} {i : Input} {events : List Event}
    (h : n.Run w (pre ++ (i, events) :: post) w') :
    ∃ w₁ fuel now o, n.Run w pre w₁ ∧ n.handle fuel now i w₁ = some o ∧ events = o.events ∧ n.Run o.world post w' := by
  induction pre generalizing w with
  | nil =>
    obtain _ | ⟨hstep, rest⟩ := h
    exact ⟨w, _, _, _, .nil w, hstep, rfl, rest⟩
  | cons step pre ih =>
    obtain _ | ⟨hstep, rest⟩ := h
    obtain ⟨w₁, fuel, now, o, hpre, h₁, he, hpost⟩ := ih rest
    exact ⟨w₁, fuel, now, o, .cons hstep hpre, h₁, he, hpost⟩

-- A queued hash is still queued at the end of a run, unless a block of that hash came in it.
theorem mem (h : n.Run w steps w') {x : Sha256dHash} (hx : x ∈ w.downloadQueue) :
    x ∈ w'.downloadQueue ∨ ∃ b peer events, (.process (.Block b) peer, events) ∈ steps ∧ n.bitcoinHash b.header = x := by
  by_cases hp : .popIf x ∈ queueOps (steps.flatMap (·.2))
  · exact .inr (h.popIf_block hp)
  · exact .inl (h.replays ▸ mem_replay hx hp)

end Run

-- A header that does not move the tip pushes the tip into `download` again.
open MemStore in
theorem run_duplicate_download :
    (Node.mk configDB ⟨[(7, ⟨false⟩)], by decide⟩ hash).Run ⟨chain, []⟩
      [(.process (.Headers [⟨header 3 4⟩, ⟨header 3 4⟩]) 7,
        [.queue (.enqueue [4, 4]), .send 7 (.GetData [⟨.WitnessBlock, 4⟩]), .queue (.enqueue []),
          .send 7 (.GetData [⟨.WitnessBlock, 4⟩])])]
      ⟨{ chain with headers := chain.headers ++ [(4, ⟨header 3 4, 3⟩)], tip := 4 }, [4, 4]⟩ :=
  @Run.cons _ _ _ _ 1 0 _
    ⟨.ok (.Height 3), ⟨{ chain with headers := chain.headers ++ [(4, ⟨header 3 4, 3⟩)], tip := 4 }, [4, 4]⟩,
      [.queue (.enqueue [4, 4]), .send 7 (.GetData [⟨.WitnessBlock, 4⟩]), .queue (.enqueue []),
        .send 7 (.GetData [⟨.WitnessBlock, 4⟩])]⟩ _ (by decide) (.nil _)

end Node

end Murmel

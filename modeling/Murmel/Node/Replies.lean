import Murmel.Node.Download

namespace Murmel.Node

variable {τ : Type} (n : Node τ)

section Handlers

variable (peer : PeerId)

theorem downloadBlocks_sendsOnlyTo {blocks : List Sha256dHash} {w w' : World τ} {r : Except SPVError Bool}
    {es : List Event} (h : n.downloadBlocks peer blocks w = (r, w', es)) : SendsOnlyTo peer es := by
  have hq : SendsOnlyTo peer [.queue (.enqueue blocks)] := .of_quiet (by simp [Event.isSend])
  unfold downloadBlocks at h
  dsimp only at h
  split at h
  · split at h <;> cases h <;> exact hq.append (n.peers.send_sendsOnlyTo _ _)
  · cases h
    exact hq

theorem getHeaders_sendsOnlyTo {w w' : World τ} {r : Except SPVError ProcessResult} {es : List Event}
    (h : n.getHeaders peer w = (r, w', es)) : SendsOnlyTo peer es := by
  unfold getHeaders at h
  rcases hd : n.downloadBlocks peer [] w with ⟨r₀, w₀, es₀⟩
  have ha := n.downloadBlocks_sendsOnlyTo peer hd
  rw [hd] at h
  rcases r₀ with _ | _ | _ <;> dsimp only at h
  · cases h; exact ha
  · split at h
    · cases h; exact ha
    · split at h <;> cases h
      · exact ha.append (n.peers.send_sendsOnlyTo _ _)
      · exact ha
  · cases h; exact ha

variable (w : World τ)

theorem notifyAndAsk_sendsOnlyTo (height : UInt32) (acc : HeadersTx τ) {events : List Event}
    (h : SendsOnlyTo peer events) : SendsOnlyTo peer (n.notifyAndAsk peer height acc w events).events := by
  have hd : SendsOnlyTo peer (events ++ acc.disconnected.map .blockDisconnected) :=
    h.append (.of_quiet (by simp [Event.isSend]))
  unfold notifyAndAsk
  dsimp only
  split
  · split <;> exact hd.append (n.getHeaders_sendsOnlyTo peer ‹_›)
  · exact hd

theorem headers_sendsOnlyTo {fuel : Nat} {headers : List LoneBlockHeader} {o : Outcome (World τ)}
    (h : n.headers fuel headers peer w = some o) : SendsOnlyTo peer o.events := by
  rcases n.headers_cases h with ⟨_, he, _⟩ | ⟨_, _, _, _, _, _, hc⟩
  · exact he ▸ .nil _
  rcases hc with ⟨_, ho⟩ | ⟨_, _, _, _, _, _, _, _, hd, ⟨_, _, ho⟩ | ⟨_, _, ho⟩⟩ <;> rw [ho]
  · exact .nil _
  · exact n.downloadBlocks_sendsOnlyTo peer hd
  · exact n.notifyAndAsk_sendsOnlyTo peer _ _ _ (n.downloadBlocks_sendsOnlyTo peer hd)

theorem block_sendsOnlyTo (b : Block) : SendsOnlyTo peer (n.block b peer w).events := by
  unfold block
  split
  · exact .nil _
  · split
    · exact .nil _
    · dsimp only
      split <;> exact (SendsOnlyTo.of_quiet (by simp [Event.isSend])).append (n.getHeaders_sendsOnlyTo peer ‹_›)

theorem inv_sendsOnlyTo (v : List Inventory) : SendsOnlyTo peer (n.inv v peer w).events := by
  suffices ∀ ask, SendsOnlyTo peer (inv.go n peer w v ask).events from this false
  induction v with
  | nil =>
    intro ask
    unfold inv.go
    split
    · split <;> exact n.getHeaders_sendsOnlyTo peer ‹_›
    · exact .nil _
  | cons inventory v ih =>
    intro ask
    unfold inv.go
    split
    · split
      · exact .nil _
      · exact ih _
    · exact .nil _

end Handlers

-- Every handler call sends only to the peer whose call it handles.
theorem handle_sendsOnlyTo {fuel : Nat} {now : UInt32} {i : Input} {w : World τ} {o : Outcome (World τ)}
    (h : n.handle fuel now i w = some o) : SendsOnlyTo i.peer o.events := by
  unfold handle at h
  split at h
  · cases h
    unfold connected
    split <;> exact n.getHeaders_sendsOnlyTo _ ‹_›
  · cases h; exact .nil _
  · unfold process at h
    split at h
    · cases h; exact n.peers.send_sendsOnlyTo _ _
    · exact n.headers_sendsOnlyTo _ w h
    · cases h; exact n.block_sendsOnlyTo _ w _
    · cases h; exact n.inv_sendsOnlyTo _ w _
    · cases h; unfold addr; split <;> exact .nil _
    · cases h; exact .nil _

-- Over any run of the node, every message it sends goes to the peer whose connection or message
-- it is handling: the blocks it asks for and the headers it requests go to the peer that spoke.
theorem Run.sends_only_to_sender {w w' : World τ} {steps : List (Input × List Event)} (h : n.Run w steps w') :
    ∀ s ∈ steps, SendsOnlyTo s.1.peer s.2 := by
  induction h with
  | nil => exact List.forall_mem_nil _
  | cons hstep _ ih =>
    rw [List.forall_mem_cons]
    exact ⟨n.handle_sendsOnlyTo hstep, ih⟩

-- Two peers speak in turn: the node asks the peer that announced a header for its block, and
-- answers the other peer's ping.
open MemStore in
theorem sends_only_to_sender_two_peers :
    (Node.mk configDB ⟨[(7, ⟨false⟩), (8, ⟨false⟩)], by decide⟩ hash).Run ⟨chain, []⟩
      [(.process (.Headers [⟨header 3 4⟩]) 7,
          [.queue (.enqueue [4]), .send 7 (.GetData [⟨.WitnessBlock, 4⟩]), .queue (.enqueue []),
            .send 7 (.GetData [⟨.WitnessBlock, 4⟩])]),
        (.process (.Ping 5) 8, [.send 8 (.Pong 5)])]
      ⟨{ chain with headers := chain.headers ++ [(4, ⟨header 3 4, 3⟩)], tip := 4 }, [4]⟩ ∧
    ∀ s ∈ ([(.process (.Headers [⟨header 3 4⟩]) 7,
          [.queue (.enqueue [4]), .send 7 (.GetData [⟨.WitnessBlock, 4⟩]), .queue (.enqueue []),
            .send 7 (.GetData [⟨.WitnessBlock, 4⟩])]),
        (.process (.Ping 5) 8, [.send 8 (.Pong 5)])] : List (Input × List Event)),
      SendsOnlyTo s.1.peer s.2 := by
  refine (fun hrun => ⟨hrun, Run.sends_only_to_sender _ hrun⟩) ?_
  exact @Run.cons _ _ _ _ 1 0 _
    ⟨.ok (.Height 3), ⟨{ chain with headers := chain.headers ++ [(4, ⟨header 3 4, 3⟩)], tip := 4 }, [4]⟩,
      [.queue (.enqueue [4]), .send 7 (.GetData [⟨.WitnessBlock, 4⟩]), .queue (.enqueue []),
        .send 7 (.GetData [⟨.WitnessBlock, 4⟩])]⟩ _ (by decide)
    (@Run.cons _ _ _ _ 1 0 _
      ⟨.ok .Ack, ⟨{ chain with headers := chain.headers ++ [(4, ⟨header 3 4, 3⟩)], tip := 4 }, [4]⟩,
        [.send 8 (.Pong 5)]⟩ _ (by decide) (.nil _))

end Murmel.Node

import Murmel.Node.Commit
import Murmel.Node.Download

namespace Murmel

namespace ConfigDB

variable {τ : Type}

-- A committed transaction is what the next transaction reads, tip and headers.
structure Durable (db : ConfigDB τ) : Prop where
  getTip : ∀ {tx s tx' : τ}, db.commit tx = .ok s → db.transaction s = .ok tx' → db.getTip tx' = db.getTip tx
  getHeader : ∀ {tx s tx' : τ}, db.commit tx = .ok s → db.transaction s = .ok tx' → db.getHeader tx' = db.getHeader tx

end ConfigDB

theorem MemStore.configDB_durable : MemStore.configDB.Durable where
  getTip hc ht := by cases hc; cases ht; rfl
  getHeader hc ht := by cases hc; cases ht; rfl

namespace Node

variable {τ : Type} (n : Node τ)

-- Once the tip moved, the tail of `headers` answers `Height` or passes a failed send on.
theorem notifyAndAsk_result (peer : PeerId) (height : UInt32) {acc : HeadersTx τ} (w : World τ)
    (events : List Event) (hmoved : acc.tipMoved = true) :
    (n.notifyAndAsk peer height acc w events).result = .ok (.Height height) ∨
      ∃ e, (n.notifyAndAsk peer height acc w events).result = .error e := by
  unfold notifyAndAsk
  simp only [hmoved, if_true]
  split
  · split
    · exact .inl rfl
    · exact .inr ⟨_, rfl⟩
  · exact .inl rfl

-- Once the tip moved, `headers` leaves the store it committed and answers `Height` of the tip it
-- read, or passes a failure on.
theorem headers_moved {peer : PeerId} {height : UInt32} {acc : HeadersTx τ} {w w' : World τ} {db : τ}
    {r : Except SPVError Bool} {es : List Event} {o : Outcome (World τ)} (hm : acc.tipMoved = true)
    (hd : n.downloadBlocks peer acc.download { w with db } = (r, w', es))
    (ho : (∃ e, r = .error e ∧ o = ⟨.error e, w', es⟩) ∨ ∃ b, r = .ok b ∧ o = n.notifyAndAsk peer height acc w' es) :
    o.world.db = db ∧ ((∃ e, o.result = .error e) ∨ o.result = .ok (.Height height)) := by
  have hdb := n.downloadBlocks_world_db hd
  rcases ho with ⟨e, -, rfl⟩ | ⟨_, -, rfl⟩
  · exact ⟨hdb, .inl ⟨e, rfl⟩⟩
  · exact ⟨(n.notifyAndAsk_db _ _ _ _ _).trans hdb, (n.notifyAndAsk_result peer height w' es hm).symm⟩

-- `headers` takes a message whole or not at all, and never answers `Ack`: a rejected header
-- (`Ban(100)` for bad work, `Ignored` otherwise) drops the transaction with every header inserted
-- before it, and nothing is queued or sent; a message that does not move the tip is committed and
-- answered `Ban(5)` with nothing queued, notified or asked for, even when some of it was new.
theorem headers_answers {fuel : Nat} {headers : List LoneBlockHeader} {peer : PeerId} {w : World τ}
    {o : Outcome (World τ)} (h : n.headers fuel headers peer w = some o) :
    o.result ≠ .ok .Ack ∧
    (o.result = .ok .Ignored ∨ o.result = .ok (.Ban 100) → o.world = w ∧ o.events = []) ∧
    (o.result = .ok (.Ban 5) → o.world.downloadQueue = w.downloadQueue ∧ o.events = [] ∧
      ∃ tx acc, n.db.transaction w.db = .ok tx ∧ n.headersLoop fuel headers ⟨tx, [], [], false, false⟩ = .next acc ∧
        acc.tipMoved = false ∧ n.db.commit acc.tx = .ok o.world.db) := by
  rcases n.headers_cases h with ⟨hw, he, hr⟩ | ⟨tx, acc, _, htx, hloop, hc, hb⟩
  · refine ⟨?_, fun _ => ⟨hw, he⟩, fun h5 => ?_⟩ <;> rcases hr with hr | hr | ⟨e, hr⟩ <;> simp [hr] at *
  rcases hb with ⟨hm, rfl⟩ | ⟨_, _, _, _, _, hm, _, _, hd, ho⟩
  · exact ⟨nofun, by simp, fun _ => ⟨rfl, rfl, tx, acc, htx, hloop, hm, hc⟩⟩
  · rcases (n.headers_moved hm hd ho).2 with ⟨e, hr⟩ | hr <;> rw [hr] <;> refine ⟨nofun, ?_, nofun⟩ <;>
      rintro (h | h) <;> cases h

-- A header stored off the best chain leaves the tip where it was.
open MemStore in
theorem headers_answers_side_branch :
    (Node.mk configDB ⟨[(7, ⟨false⟩)], by decide⟩ hash).headers 1 [⟨header 1 5⟩] 7 ⟨chain, []⟩ =
      some ⟨.ok (.Ban 5), ⟨{ chain with headers := chain.headers ++ [(5, ⟨header 1 5, 1⟩)] }, []⟩, []⟩ ∧
    (ProcessResult.Ban 5 : ProcessResult) ≠ .Ack :=
  have h : (Node.mk configDB ⟨[(7, ⟨false⟩)], by decide⟩ hash).headers 1 [⟨header 1 5⟩] 7 ⟨chain, []⟩ =
      some ⟨.ok (.Ban 5), ⟨{ chain with headers := chain.headers ++ [(5, ⟨header 1 5, 1⟩)] }, []⟩, []⟩ := by decide
  ⟨h, fun e => (headers_answers _ h).1 (congrArg Except.ok e)⟩

-- Unlike the dispatcher's, the node's `Height(h)` is the height of the tip of the store it
-- committed: it reads the tip after the loop, from the transaction it then commits.
theorem headers_height_committed (hd : n.db.Durable) {fuel : Nat} {headers : List LoneBlockHeader} {peer : PeerId}
    {w : World τ} {o : Outcome (World τ)} (h : n.headers fuel headers peer w = some o) {height : UInt32}
    (hr : o.result = .ok (.Height height)) {tx : τ} (htx : n.db.transaction o.world.db = .ok tx) :
    ∃ tip stored, n.db.getTip tx = .ok (some tip) ∧ n.db.getHeader tx tip = some stored ∧ stored.height = height := by
  rcases n.headers_cases h with ⟨_, _, hr'⟩ | ⟨_, acc, _, _, _, hc, hb⟩
  · rcases hr' with hr' | hr' | ⟨e, hr'⟩ <;> simp [hr'] at hr
  rcases hb with ⟨_, rfl⟩ | ⟨tip, stored, _, _, _, hm, hgt, hgh, hq, ho⟩
  · simp at hr
  obtain ⟨hdb, ⟨e, hr'⟩ | hr'⟩ := n.headers_moved hm hq ho
  · simp [hr'] at hr
  rw [hdb] at htx
  exact ⟨tip, stored, (hd.getTip hc htx).trans hgt, (hd.getHeader hc htx).symm ▸ hgh,
    ProcessResult.Height.inj (Except.ok.inj (hr'.symm.trans hr))⟩

open MemStore in
theorem headers_height_committed_chain :
    configDB.Durable ∧
    (Node.mk configDB ⟨[(7, ⟨false⟩)], by decide⟩ hash).headers 1 [⟨header 3 4⟩] 7 ⟨chain, []⟩ =
      some ⟨.ok (.Height 3), ⟨{ chain with headers := chain.headers ++ [(4, ⟨header 3 4, 3⟩)], tip := 4 }, [4]⟩,
        [.queue (.enqueue [4]), .send 7 (.GetData [⟨.WitnessBlock, 4⟩]), .queue (.enqueue []),
          .send 7 (.GetData [⟨.WitnessBlock, 4⟩])]⟩ ∧
    configDB.transaction { chain with headers := chain.headers ++ [(4, ⟨header 3 4, 3⟩)], tip := 4 } =
      .ok { chain with headers := chain.headers ++ [(4, ⟨header 3 4, 3⟩)], tip := 4 } ∧
    ∃ tip stored, configDB.getTip { chain with headers := chain.headers ++ [(4, ⟨header 3 4, 3⟩)], tip := 4 } =
        .ok (some tip) ∧
      configDB.getHeader { chain with headers := chain.headers ++ [(4, ⟨header 3 4, 3⟩)], tip := 4 } tip = some stored ∧
      stored.height = 3 :=
  have h : (Node.mk configDB ⟨[(7, ⟨false⟩)], by decide⟩ hash).headers 1 [⟨header 3 4⟩] 7 ⟨chain, []⟩ =
      some ⟨.ok (.Height 3), ⟨{ chain with headers := chain.headers ++ [(4, ⟨header 3 4, 3⟩)], tip := 4 }, [4]⟩,
        [.queue (.enqueue [4]), .send 7 (.GetData [⟨.WitnessBlock, 4⟩]), .queue (.enqueue []),
          .send 7 (.GetData [⟨.WitnessBlock, 4⟩])]⟩ := by decide
  ⟨configDB_durable, h, rfl, headers_height_committed _ configDB_durable h rfl rfl⟩

end Node

end Murmel

import Mathlib.Data.Int.ModEq
import NanoTrade.Backtest.BacktestSession
import NanoTrade.Exchange.Clearing

/-!
# Positions of a backtest

What the trade engine makes of the executions of the fill simulator.

* `limited_step`: the position and what the order of a side can still be filled stay within the
  limit of the risk check.
* `Booked.step`: the positions and the volumes are the sums of the executions that the trade
  engine has read, in the order in which the simulator has written them.
-/

namespace NanoTrade

namespace BacktestSession

variable {clientId : ClientId} {riskCfg : TickerId → RiskCfg} {s s' : BacktestSession}
  {out : List FillEvent} {x : MEClientResponse} {rest : List MEClientResponse}

/-! ## The limit -/

/-- What the next response of an order takes from it. -/
theorem SimJoint.taken {side : BookSide} (joint : SimJoint clientId s)
    (front : s.clientResponses = x :: rest) (sided : x.side = side.toSide)
    (looked : x.type ≠ .CANCEL_REJECTED) :
    (OrderManager.updated x (s.slot x.tickerId side)).outstanding +
      (if x.type = .FILLED then x.execQty else 0) ≤ (s.slot x.tickerId side).outstanding := by
  have phase := joint.phase x.tickerId side
  rw [told_front front, if_pos ⟨looked, rfl, sided⟩] at phase
  exact phase.outstanding_updated

/-- One step. -/
theorem limited_step {i : BacktestInput} (limited : s.tradeEngine.Limited riskCfg)
    (joint : SimJoint clientId s)
    (limits : ∀ tickerId, (riskCfg tickerId).maxOrderSize < 2 ^ 30 ∧
      (riskCfg tickerId).maxPosition < 2 ^ 30)
    (stepped : s.step i = .ok (s', out)) : s'.tradeEngine.Limited riskCfg := by
  cases i with
  | moveOrders tickerId bidPrice askPrice clip lossTooLarge =>
      obtain ⟨rfl, -⟩ := step_moveOrders stepped
      exact (limited.moveOrder limits tickerId .bid lossTooLarge bidPrice clip).moveOrder limits
        tickerId .ask lossTooLarge askPrice clip
  | deliver =>
      rcases step_deliver stepped with ⟨-, rfl | ⟨x, rest, front, rfl⟩⟩
      · exact limited
      · by_cases rejected : x.type = .CANCEL_REJECTED
        · exact limited.rejected rejected
        · obtain ⟨side, sided⟩ := joint.responses x (by rw [front]; exact List.mem_cons_self)
          exact limited.updated (fun tickerId => (limits tickerId).2) sided
            (joint.taken front sided rejected)
  | process bbo =>
      rcases step_process stepped with ⟨rfl, -⟩ | ⟨r, rest, -, made⟩
      · exact limited
      · obtain rfl := congrArg Prod.fst made
        exact limited
  | marketEvent ev =>
      obtain rfl := congrArg Prod.fst (Except.ok.inj stepped)
      exact limited
  | bboPass cur seen =>
      obtain rfl := congrArg Prod.fst (Except.ok.inj stepped)
      exact limited
  | rehash order =>
      obtain rfl := congrArg Prod.fst (Except.ok.inj stepped)
      exact limited

/-! ## The books of the engine -/

/-- The trade engine has read a front of the responses, and its positions and volumes are what
they execute. -/
structure Booked (s : BacktestSession) (log : List FillEvent) (read : List MEClientResponse) :
    Prop where
  order : FillProtocol.responded log = read ++ s.clientResponses
  position : ∀ tickerId, s.tradeEngine.position tickerId =
    Int.bmod (netExecuted tickerId read) (2 ^ 32)
  volume : ∀ tickerId, (s.tradeEngine.positionKeeper tickerId).volume =
    totalExecuted tickerId read % 2 ^ 32

variable {log : List FillEvent} {read : List MEClientResponse}

theorem Booked.new (clientId : ClientId) (riskCfg : TickerId → RiskCfg) (mode : FillMode) :
    Booked (new clientId riskCfg mode) [] [] :=
  ⟨rfl, fun _ => rfl, fun _ => rfl⟩

/-- The responses that the simulator adds go behind those that are on their way. -/
theorem Booked.simulate (booked : Booked s log read) {t : BacktestSession}
    (engine : t.tradeEngine = s.tradeEngine)
    (responses : t.clientResponses = s.clientResponses ++ out.flatMap FillEvent.responses) :
    Booked t (log ++ out) read := by
  refine ⟨?_, fun tickerId => ?_, fun tickerId => ?_⟩
  · rw [FillProtocol.responded_append, booked.order, responses, List.append_assoc]
    rfl
  · rw [engine]
    exact booked.position tickerId
  · rw [engine]
    exact booked.volume tickerId

/-- The next response is booked. -/
theorem Booked.deliver (booked : Booked s log read) (front : s.clientResponses = x :: rest) :
    Booked (s.delivered x rest) log (read ++ [x]) := by
  refine ⟨?_, fun tickerId => ?_, fun tickerId => ?_⟩
  · rw [booked.order, front, List.append_assoc]
    rfl
  · rw [delivered, TradeEngine.updated_position, netExecuted_append, booked.position]
    by_cases filled : x.type = .FILLED ∧ tickerId = x.tickerId
    · have here : netExecuted tickerId [x] = x.execQty * sideToValue x.side := by
        simp [netExecuted, filled.1, filled.2]
      rw [if_pos filled, here, Int.bmod_add_bmod]
    · have uncounted : netExecuted tickerId [x] = 0 := by
        simp only [netExecuted, List.map_cons, List.map_nil, List.sum_singleton]
        exact if_neg fun now => filled ⟨now.1, now.2.symm⟩
      rw [if_neg filled, uncounted, add_zero]
  · rw [totalExecuted_append]
    have before := booked.volume tickerId
    by_cases filled : x.type = .FILLED
    · rcases eq_or_ne tickerId x.tickerId with rfl | ne
      · have here : totalExecuted x.tickerId [x] = x.execQty := by
          simp [totalExecuted, filled]
        have now : ((s.delivered x rest).tradeEngine.positionKeeper x.tickerId).volume =
            ((s.tradeEngine.positionKeeper x.tickerId).volume + x.execQty) % 2 ^ 32 := by
          simp [delivered, TradeEngine.updated, filled, PositionInfo.addFill]
        rw [now, before, here, Nat.mod_add_mod]
      · have uncounted : totalExecuted tickerId [x] = 0 := by
          simp [totalExecuted, ne.symm]
        have now : (s.delivered x rest).tradeEngine.positionKeeper tickerId =
            s.tradeEngine.positionKeeper tickerId := by
          simp [delivered, TradeEngine.updated, filled, Function.update_of_ne ne]
        rw [now, before, uncounted, Nat.add_zero]
    · have uncounted : totalExecuted tickerId [x] = 0 := by
        simp [totalExecuted, filled]
      have now : (s.delivered x rest).tradeEngine.positionKeeper tickerId =
          s.tradeEngine.positionKeeper tickerId := by
        simp [delivered, TradeEngine.updated, filled]
      rw [now, before, uncounted, Nat.add_zero]

/-- One step. -/
theorem Booked.step {i : BacktestInput} (booked : Booked s log read)
    (stepped : s.step i = .ok (s', out)) : ∃ read', Booked s' (log ++ out) read' := by
  cases i with
  | moveOrders tickerId bidPrice askPrice clip lossTooLarge =>
      obtain ⟨⟨tradeEngine, sent⟩, moves, last⟩ := bind_eq_ok.mp stepped
      cases last
      obtain ⟨-, ask, -, -, rfl, -⟩ := TradeEngine.moveOrders_eq_ok moves
      rw [List.append_nil]
      exact ⟨read, booked.order, booked.position, booked.volume⟩
  | deliver =>
      obtain ⟨rfl, rfl | ⟨x, rest, front, rfl⟩⟩ := step_deliver stepped
      · rw [List.append_nil]
        exact ⟨read, booked⟩
      · rw [List.append_nil]
        exact ⟨read ++ [x], booked.deliver front⟩
  | process bbo =>
      rcases step_process stepped with ⟨rfl, rfl⟩ | ⟨r, rest, -, made⟩
      · rw [List.append_nil]
        exact ⟨read, booked⟩
      · cases made
        exact ⟨read, booked.simulate rfl rfl⟩
  | marketEvent ev =>
      cases stepped
      exact ⟨read, booked.simulate rfl rfl⟩
  | bboPass cur seen =>
      cases stepped
      exact ⟨read, booked.simulate rfl rfl⟩
  | rehash order =>
      cases stepped
      exact ⟨read, booked.simulate rfl rfl⟩

end BacktestSession

end NanoTrade

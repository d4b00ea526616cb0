/-
# What a contract knows of the network

`virtio_net_poll_rx` is called by `VirtualMachine::evaluate` of `autarky_vm/src/vm.rs` for each
`POLL` it comes to.  A message is here what one call returns, 0 where no packet has come.  The calls
take the messages of the network in order and each once, and a contract knows nothing of those it has
not polled: its answer and its receipt are decided by the messages it took, and the next contract
begins with the one after them (`autarkyExecute_consumes`).
-/

import AiOsExchange.Autarky.Execute
import AiOsExchange.Lib.Stream

namespace AiOsExchange
namespace Autarky

open Computations CMemory

/-- The machine's state is the stream. -/
def netInput : Input Net Int32 where
  stream net := net
  feed net _ := net
  feed_stream _ := rfl
  stream_feed _ _ := rfl

/-- The stream of an execution. -/
def hostInput : Input Host Int32 where
  stream host := host.net
  feed net host := { host with net := net }
  feed_stream _ := rfl
  stream_feed _ _ := rfl

/-- A `POLL` takes one message, and nothing else of the machine takes any. -/
theorem netMachine_consumes :
    MachineRel (fun _ (x _y : Comp Net _) => Consumes netInput x) netMachine netMachine where
  poll := by
    refine fun net => ⟨1, fun net' h => ?_⟩
    have h0 : net' 0 = net 0 := h 0 Nat.one_pos
    simp only [netMachine, netInput, h0]
    rfl
  call := .of_feed fun _ _ => rfl
  div a b _ := by
    refine .of_feed fun net' net => ?_
    simp only [netMachine]
    split_ifs <;> rfl

/-- **Evaluations take messages in order**, and depend on no others. -/
theorem evaluate_consumes (fuel : ℕ) (env : Env) (node : IrNode) :
    Consumes netInput (evaluate fuel env node) := by
  induction fuel generalizing env node with
  | zero => exact .of_feed fun _ _ => rfl
  | succ fuel ih =>
      exact @evaluateStep_congr _ _ _ _ _ (Consumes.congruence netInput) netMachine_consumes _
        (evaluate fuel) ih env node

/-- Catching an error takes no message. -/
theorem attempt_consumes {α : Type} {x : Comp Net α} (h : Consumes netInput x) :
    Consumes hostInput (Comp.attempt (onNet x)) := by
  intro host
  obtain ⟨k, hk⟩ := h host.net
  refine ⟨k, fun net hnet => ?_⟩
  have hx : x net = ((x host.net).1, later k net) := hk net hnet
  simp only [Comp.attempt, onNet, hostInput, hx]
  rcases hx' : x host.net with ⟨_ | _ | _ | _, net₁⟩ <;> rfl

/-- **A contract knows what it polled.**  An execution takes some number of messages from the
network; whatever else comes after these, it gives the same answer, the same buffer and the same
receipt, and leaves the rest of the messages. -/
theorem autarkyExecute_consumes (fmtValue : Value → List Char) (fuel : ℕ) (bytecode : Option Buf)
    (outBuf : Buf) (maxLen : ℕ) (host : Host) :
    ∃ k, ∀ net : Net, (∀ i < k, net i = host.net i) →
      autarkyExecute fmtValue fuel bytecode outBuf maxLen { host with net := net } =
        ((autarkyExecute fmtValue fuel bytecode outBuf maxLen host).1,
          { (autarkyExecute fmtValue fuel bytecode outBuf maxLen host).2 with
            net := fun n => net (n + k) }) := by
  have h : Consumes hostInput (autarkyExecute fmtValue fuel bytecode outBuf maxLen) := by
    rw [autarkyExecute]
    split_ifs with hs
    · exact .of_feed fun _ _ => rfl
    · split
      · refine (attempt_consumes (evaluate_consumes fuel seededEnv _)).bind fun result => ?_
        cases result with
        | ok val => exact .of_feed fun _ _ => rfl
        | error e => exact .of_feed fun _ _ => rfl
      · exact .of_feed fun _ _ => rfl
      · exact .of_feed fun _ _ => rfl
      · exact .of_feed fun _ _ => rfl
  exact h host

end Autarky
end AiOsExchange

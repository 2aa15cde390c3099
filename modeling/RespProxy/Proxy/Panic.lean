import RespProxy.Proxy.Conclude
import RespProxy.Resp.Reader

/-! # Panics

Two kinds of client commands end the whole process. The empty command is one:
its name is looked up in `argv[0]`. A number of keys near 2⁶³ is the other:
`KeyIndexes` hands a wrapped-around capacity to `make`.

* `PanicFree`: neither `handle` nor `classifyPipe` panics on a command;
* `Digestible`: the commands of which that is true, in each state.
-/

namespace RespProxy.Proxy

open Cluster Command Resp

variable {cfg : Config} {s : Session} {c : ClientCmd}
variable {argv : Argv}

/-- The client is authenticated, or need not be. -/
def Admitted (cfg : Config) (s : Session) : Prop := (requireAuth cfg && !s.authed) = false

/-- Other commands pass the local ones if the client is admitted. -/
theorem localStep_none_iff (hargv : argv ≠ []) (hn : nameOf argv ∉ localNames)
    (hc : nameOf argv ≠ "COMMAND") : (localStep cfg s argv).2 = none ↔ Admitted cfg s := by
  simp only [localNames, List.mem_cons, List.not_mem_nil, or_false, not_or] at hn
  obtain ⟨h₁, h₂, h₃, h₄, h₅, h₆, h₇, h₈⟩ := hn
  unfold localStep
  dsimp only
  rw [if_neg hargv, if_neg h₁, if_neg h₂, if_neg h₃, if_neg h₄, if_neg h₅, if_neg hc, if_neg h₆,
    if_neg h₇, if_neg h₈, Admitted]
  cases requireAuth cfg && !s.authed <;> simp

/-! ## Commands that do not panic -/

/-- Names without code of their own are forwarded. -/
theorem dispatch_forward (hne : c.argv ≠ []) (hown : c.name ∉ ownCommands) :
    dispatch cfg s c = forward cfg s c := by
  have hname := ClientCmd.name_of_ne hne
  have hsub : ¬ (classifyPubSub (nameOf c.argv) = .subscribe ∨
      classifyPubSub (nameOf c.argv) = .psubscribe ∨
      classifyPubSub (nameOf c.argv) = .ssubscribe) := by
    intro h
    exact hown (hname ▸ List.Sublist.subset (by decide) (classifyPubSub_subscribe h))
  have hpub : ¬ (classifyPubSub (nameOf c.argv) = .publish ∨
      classifyPubSub (nameOf c.argv) = .spublish) := by
    intro h
    exact hown (hname ▸ List.Sublist.subset (by decide) (classifyPubSub_publish h))
  simp only [ownCommands, List.mem_cons, List.not_mem_nil, or_false, not_or] at hown
  obtain ⟨-, -, -, -, -, -, -, -, -, h₁, h₂, h₃, h₄, h₅, h₆⟩ := hown
  unfold dispatch
  dsimp only
  rw [if_neg hsub, if_neg hpub, if_neg h₁, if_neg h₂, if_neg h₃, if_neg h₄, if_neg h₅, if_neg h₆]

end RespProxy.Proxy

import Salita.Builtin.Conversion
import Salita.Builtin.Lists
import Salita.Builtin.Numeric
import Salita.Builtin.Transfer

namespace Salita

def Builtin.perform : Builtin → Call → Eval Value
  | .bilang => Call.bilang
  | .lutang => Call.lutang
  | .titik => Call.titik
  | .halaga => Call.halaga
  | .ibilog => Call.ibilog
  | .putulin => (Call.roundBy · .towardZero)
  | .kisame => (Call.roundBy · .up)
  | .sahig => (Call.roundBy · .down)
  | .iangat => Call.iangat
  | .ibaba => Call.ibaba
  | .parisugat => Call.parisugat
  | .maximo => Call.maximo
  | .minimo => Call.minimo
  | .haba => Call.haba
  | .palitan => Call.palitan
  | .idagdag => Call.idagdag
  | .tanggalan => Call.tanggalan
  | .silipin => Call.silipin
  | .isaayos => Call.isaayos
  | .baligtarin => Call.baligtarin
  | .baligtad => Call.baligtad
  | .nakaayos => Call.nakaayos
  | .pahingi => Call.pahingi
  | .buksan => Call.buksan
  | .basahin => Call.basahin
  | .linya => Call.linya
  | .isulat => Call.isulat
  | .isara => Call.isara
  | .argumentCount => fun call => return .int (Int64.ofNat call.args.length)

def Arity.check (arity : Arity) (name : String) (given : Nat) : Eval Unit :=
  if arity.accepts given then return ()
  else Eval.fail (.invalidArgument name (.count arity given))

def Native.call (f : Native) (args : List Value) : Eval Value := do
  f.arity.check f.name args.length
  f.builtin.perform ⟨f.name, args⟩

end Salita

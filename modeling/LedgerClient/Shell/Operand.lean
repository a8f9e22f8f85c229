import LedgerClient.Command.Basic
import LedgerClient.ClientError
import LedgerClient.File
import LedgerClient.Json.Codec

/-!
# Operands that may name files

A transaction and the parameters of a command are given as they are, or as the name of a file behind
an at sign.
-/

namespace LedgerClient.Shell

/-- Why something that a user asked for is not done. -/
inductive Refusal
  | client (e : ClientError)
  | protocol (e : ProtocolError)
  | json (fault : Json.Fault)
  | file (e : FileError)
  /-- The file of a transaction is empty. -/
  | emptyFile (name : String)

def Refusal.message : Refusal → String
  | .client e => e.message
  | .protocol e => e.message
  | .json fault => fault.message
  | .file e => e.message
  | .emptyFile name => name ++ " is empty"

/-- The name of the file that an operand stands for, if it stands for one. -/
def fileOf? (operand : String) : Option String :=
  match operand.toList with
  | '@' :: name => some (String.ofList name)
  | _ => none

/-- The transaction that an operand stands for: hexadecimal digits, or the bytes of a file. -/
def transactionOf (files : Files) (operand : String) : Except Refusal SubmitCommand :=
  match fileOf? operand with
  | none => (SubmitCommand.ofBlob operand).mapError .protocol
  | some name =>
    match files.read name with
    | .error e => .error (.file e)
    | .ok bytes => if bytes.isEmpty then .error (.emptyFile name) else .ok (.ofBytes bytes)

def valueOf (text : String) : Except Refusal Json.Value :=
  (Json.Codec.value.decode text).mapError .json

/-- The parameters that an operand stands for: a JSON text, or that of a file. -/
def parametersOf (files : Files) (operand : String) : Except Refusal Json.Value :=
  match fileOf? operand with
  | none => valueOf operand
  | some name => ((files.readText name).mapError .file).bind valueOf

end LedgerClient.Shell

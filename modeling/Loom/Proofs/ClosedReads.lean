import Loom.Module.Format
import Loom.Symbols

set_option autoImplicit false

/-! A property of every read of the two formats: it goes through a sequence of reads, and the primitive reads have it.
-/
namespace Loom.Read

structure Closed (holds : ∀ {α : Type}, Read α → Prop) : Prop where
  pure : ∀ {α : Type} (a : α), holds (pure a)
  throw : ∀ {α : Type} (e : DecodeError), holds (throw e : Read α)
  bind : ∀ {α β : Type} {p : Read α} {q : α → Read β}, holds p → (∀ a, holds (q a)) → holds (p >>= q)
  position : holds position
  u8 : holds u8
  word : holds u32
  bytes : ∀ n, holds (bytes n)

namespace Closed

variable {holds : ∀ {α : Type}, Read α → Prop} (closed : Closed holds) {α : Type}

include closed

theorem bool : holds Read.bool := closed.bind closed.u8 fun _ => closed.pure _

theorem text : holds Read.text :=
  closed.bind closed.word fun length => closed.bind closed.position fun offset =>
    closed.bind (closed.bytes length.toNat) fun bs => by
      cases Bytes.toText? bs with
      | some s => exact closed.pure s
      | none => exact closed.throw _

theorem opt {read : Read α} (inner : holds read) :
    holds (do if ← Read.bool then return some (← read) else return none) :=
  closed.bind closed.bool fun present => by
    cases present with
    | true => exact closed.bind inner fun a => closed.pure (some a)
    | false => exact closed.pure none

theorem rows {row : Read α} (inner : holds row) (n : Nat) : holds (Read.rows row n) := by
  induction n with
  | zero => exact closed.pure []
  | succ n ih => exact closed.bind inner fun first => closed.bind ih fun others => closed.pure _

theorem pair (make : String → String → α) :
    holds (do
      let s ← Read.text
      let t ← Read.text
      return make s t) :=
  closed.bind closed.text fun _ => closed.bind closed.text fun _ => closed.pure _

theorem kind : holds TypeKind.read :=
  closed.bind closed.position fun offset => closed.bind closed.u8 fun tag => by
    cases TypeKind.ofTag? tag with
    | some kind => exact closed.pure kind
    | none => exact closed.throw _

theorem type_ref : holds TypeRef.read :=
  closed.bind (closed.opt closed.text) fun _ => closed.bind closed.text fun _ =>
    closed.bind closed.text fun _ => closed.pure _

theorem symbol_entry : holds SymbolEntry.read :=
  closed.bind closed.text fun _ => closed.bind closed.text fun _ => closed.bind closed.word fun _ => closed.pure _

variable {count : Read Nat} (counts : holds count)

include counts

theorem table {row : Read α} (inner : holds row) : holds (Read.table count row) :=
  closed.bind counts (closed.rows inner)

theorem type_decl : holds (TypeDecl.read count) :=
  closed.bind closed.text fun _ => closed.bind closed.text fun _ => closed.bind closed.kind fun _ =>
    closed.bind (closed.opt closed.type_ref) fun _ =>
      closed.bind (closed.table counts closed.text) fun _ =>
        closed.bind (closed.table counts (closed.pair FieldDecl.mk)) fun _ => closed.pure _

theorem payload (flags : UInt32) : holds (Module.readPayload count flags) :=
  closed.bind (closed.pair Identity.mk) fun _ =>
    closed.bind (closed.table counts (closed.pair Identity.mk)) fun _ =>
      closed.bind (closed.table counts (closed.type_decl counts)) fun _ =>
        closed.bind (closed.table counts (closed.pair Registration.mk)) fun _ =>
          closed.bind (closed.opt closed.text) fun _ => closed.pure _

theorem symbol_payload : holds (SymbolTable.readPayload count) :=
  closed.bind closed.text fun _ => closed.bind (closed.table counts closed.symbol_entry) fun _ => closed.pure _

end Closed

end Loom.Read

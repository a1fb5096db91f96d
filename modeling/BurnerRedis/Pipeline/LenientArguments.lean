import BurnerRedis.Pipeline.Alike

/-!
# Arguments that the fast path reads leniently

HSET, XTRIM, XRANGE, XADD, XAUTOCLAIM, XPENDING and XCLAIM: the fast path passes over an argument
that the method refuses, unless another argument is refused first. Each lemma compares the readings of
the arguments one by one, in the order of the two paths.
-/

open Except

namespace BurnerRedis

namespace Pipeline

section Agreement

variable {S : Type} [PyFloat S] {e : Env} {L : LuaEngine S} {c c' : Client S}

/-- The fast path drops a mapping that is no dictionary. -/
theorem agree_hset (name key value mapping : PyValue S) :
    Agree e L c (.hset name key value mapping) ↔
      Queued.Alike e c (.hset name key value mapping) := by
  have hname := only_extractBytes name
  have hpair := only_hsetPair key value
  have hmapping := only_extractOption only_extractDict mapping
  have hserves : Serves (dispatchPipelineCommand e L (.hset name key value mapping)) :=
    serves_bind fun _ => serves_bind fun _ => serves_bind fun _ => serves_ok Act.onData_served
  simp only [Agree, dispatchPipelineCommand, clientMethod, Queued.Alike] at hserves ⊢
  cases hm : extractOption extractDict mapping with
  | ok m =>
    rw [extractSoft_of_ok hm]
    simp
  | error r =>
    rw [hm, only_error] at hmapping
    rw [extractSoft_of_error hm] at hserves ⊢
    rw [error_bind, perform_error, hmapping, perform_eq_error_iff hserves (by decide)]
    cases hn : extractBytes name with
    | error r₁ =>
      rw [hn, only_error] at hname
      simp [hname]
    | ok n =>
      cases hp : hsetPair key value with
      | error r₂ =>
        rw [hp, only_error] at hpair
        simp [hpair]
      | ok p => simp

/-- An argument that is refused with `TypeError`, before others that raise `r` where `p` holds. -/
theorem raises_typeError_bind {α : Type} {x : Except PyErr α} {f : α → Except PyErr (Act S)}
    {r : PyErr} {p : Prop} (hx : x.Only .typeError)
    (hf : ∀ a, (f a).Raises r ↔ r = .typeError ∧ p) :
    (x >>= f).Raises r ↔ r = .typeError ∧ (x.Refuses ∨ p) := by
  cases x with
  | error r' =>
    rw [only_error] at hx
    simp [hx, eq_comm]
  | ok a => simpa using hf a

theorem raises_of_only_valueError {x : Except PyErr (Act S)} {r : PyErr} (hx : x.Only .valueError)
    (hr : r = .typeError ∨ r = .overflowError) : x.Raises r ↔ r = .typeError ∧ False := by
  rw [and_false, iff_false]
  exact hx.not_raises (ne_valueError hr)

/-- The fast path drops MAXLEN and MINID that cannot be read. -/
theorem agree_xtrim (name maxlen minid approximate : PyValue S) :
    Agree e L c (.xtrim name maxlen minid approximate) ↔
      Queued.Alike e c (.xtrim name maxlen minid approximate) := by
  have hminid := only_extractOption only_extractStr minid
  have hmaxlen := numeric_extractOption numeric_extractUsize maxlen
  have happ := only_extractBool approximate
  have hserves : Serves (dispatchPipelineCommand e L (.xtrim name maxlen minid approximate)) :=
    serves_bind fun _ => serves_bind fun _ => serves_ok Act.onData_served
  have hraises (r : PyErr) (hr : r = .typeError ∨ r = .overflowError) :
      (dispatchPipelineCommand e L (.xtrim name maxlen minid approximate)).Raises r ↔
        r = .typeError ∧ ((extractBytes name).Refuses ∨ False) := by
    refine raises_typeError_bind (only_extractBytes name) fun key => ?_
    refine raises_of_only_valueError (only_bind ?_ fun _ => only_ok _) hr
    cases extractSoft extractStr minid with
    | none => exact only_ok _
    | some s => exact only_bind (only_parseId s) fun _ => only_ok _
  simp only [Agree, dispatchPipelineCommand, clientMethod, Queued.Alike] at hserves hraises ⊢
  cases hm : extractOption extractUsize maxlen with
  | error r =>
    have hr := hmaxlen r hm
    rw [error_bind, perform_error, perform_eq_error_iff hserves (ne_responseError hr), hraises r hr]
    simp
  | ok m =>
    cases hi : extractOption extractStr minid with
    | error r =>
      rw [hi, only_error] at hminid
      rw [ok_bind, error_bind, perform_error, hminid, perform_eq_error_iff hserves (by decide),
        hraises _ (.inl rfl)]
      simp
    | ok i =>
      cases ha : extractBool approximate with
      | error r =>
        rw [ha, only_error] at happ
        rw [ok_bind, ok_bind, error_bind, perform_error, happ,
          perform_eq_error_iff hserves (by decide), hraises _ (.inl rfl)]
        simp
      | ok a =>
        rw [extractSoft_of_ok hm, extractSoft_of_ok hi]
        simp

theorem agree_xrange (name min max count : PyValue S) :
    Agree e L c (.xrange name min max count) ↔ Queued.Alike e c (.xrange name min max count) := by
  have hcount := numeric_extractOption numeric_extractUsize count
  simp only [Agree, dispatchPipelineCommand, clientMethod, Queued.Alike]
  rw [bind_rotate (only_extractBytes name) (only_extractStr min) (only_extractStr max)]
  cases hmin : extractStr min with
  | error r => simp
  | ok a =>
    cases hmax : extractStr max with
    | error r => simp
    | ok b =>
      cases hc : extractOption extractUsize count with
      | ok n =>
        rw [extractSoft_of_ok hc]
        simp
      | error r =>
        have hr := hcount r hc
        simp only [ok_bind, error_bind, perform_error]
        rw [perform_eq_error_iff ?_ (ne_responseError hr), raises_typeError_bind (p := False)
          (only_extractBytes name) fun key => raises_of_only_valueError (only_bind (only_parseMin a)
            fun _ => only_bind (only_parseMax b) fun _ => only_ok _) hr]
        · simp
        · exact serves_bind fun _ => serves_bind fun _ => serves_bind fun _ =>
            serves_ok Act.onData_served

theorem agree_xadd (name fields id maxlen minid : PyValue S) :
    Agree e L c (.xadd name fields id maxlen minid) ↔
      Queued.Alike e c (.xadd name fields id maxlen minid) := by
  have hmaxlen := numeric_extractOption numeric_extractUsize maxlen
  have hminid := only_extractOption only_extractStr minid
  simp only [Agree, dispatchPipelineCommand, clientMethod, Queued.Alike]
  cases hfields : extractDict fields with
  | error r => simp
  | ok items =>
    rw [ok_bind, ok_bind, bind_comm₂ (only_extractBytes name) (only_extractStreamFields items)
      (only_extractStr id)]
    cases hid : extractStr id with
    | error r => simp
    | ok s =>
      -- what the fast path still reads
      generalize hfast : (extractBytes name >>= fun key => extractStreamFields items >>= fun fieldMap =>
        parseNewId s >>= fun id => .ok (Act.xadd e key fieldMap id) : Except PyErr (Act S)) = fast
      have hserves : Serves fast := by
        rw [← hfast]
        exact serves_bind fun _ => serves_bind fun _ => serves_bind fun _ =>
          serves_ok Act.onData_served
      have hraises (r : PyErr) (hr : r = .typeError ∨ r = .overflowError) : fast.Raises r ↔
          r = .typeError ∧ ((extractBytes name).Refuses ∨
            (extractStreamFields items).Refuses ∨ False) := by
        rw [← hfast]
        refine raises_typeError_bind (only_extractBytes name) fun key => ?_
        refine raises_typeError_bind (only_extractStreamFields items) fun fieldMap => ?_
        exact raises_of_only_valueError (only_bind (only_parseNewId s) fun _ => only_ok _) hr
      simp only [ok_bind, hfast]
      cases hm : extractOption extractUsize maxlen with
      | error r =>
        have hr := hmaxlen r hm
        rw [error_bind, perform_error, perform_eq_error_iff hserves (ne_responseError hr),
          hraises r hr]
        simp
      | ok m =>
        cases hi : extractOption extractStr minid with
        | error r =>
          rw [hi, only_error] at hminid
          rw [ok_bind, error_bind, perform_error, hminid,
            perform_eq_error_iff hserves (by decide), hraises _ (.inl rfl)]
          simp
        | ok i => simp

theorem agree_xautoclaim (name groupname consumername minIdleTime startId count : PyValue S) :
    Agree e L c (.xautoclaim name groupname consumername minIdleTime startId count) ↔
      Queued.Alike e c (.xautoclaim name groupname consumername minIdleTime startId count) := by
  have hname := only_extractBytes name
  have hgroup := only_extractBytes groupname
  have hconsumer := only_extractBytes consumername
  have hstart := only_extractStr startId
  have hcount := numeric_extractOption numeric_extractUsize count
  simp only [Agree, dispatchPipelineCommand, clientMethod, Queued.Alike]
  cases hidle : extractU64 minIdleTime with
  | error r => simp
  | ok minIdle =>
    rw [ok_bind, ok_bind, bind_congr fun _ => bind_comm₂ hgroup hconsumer hstart _,
      bind_comm hname hstart]
    cases hs : extractStr startId with
    | error r => simp
    | ok start =>
      cases hc : extractOption extractUsize count with
      | ok n =>
        rw [extractSoft_of_ok hc]
        simp
      | error r =>
        have hr := hcount r hc
        rw [ok_bind, ok_bind, error_bind, perform_error, perform_eq_error_iff ?_ (ne_responseError hr),
          raises_typeError_bind hname fun _ => raises_typeError_bind hgroup fun _ =>
            raises_typeError_bind hconsumer fun _ => raises_of_only_valueError
              (only_bind (only_parseStart start) fun _ => only_ok _) hr]
        · simp [refuses_seqRight, or_assoc]
        · exact serves_bind fun _ => serves_bind fun _ => serves_bind fun _ => serves_bind fun _ =>
            serves_ok Act.onData_served

theorem agree_xpendingRange (name groupname min max count consumername idle : PyValue S) :
    Agree e L c (.xpendingRange name groupname min max count consumername idle) ↔
      Queued.Alike e c (.xpendingRange name groupname min max count consumername idle) := by
  have hname := only_extractBytes name
  have hgroup := only_extractBytes groupname
  have hconsumer := only_extractOption only_extractBytes consumername
  have hidle := numeric_extractOption numeric_extractU64 idle
  simp only [Agree, dispatchPipelineCommand, clientMethod, Queued.Alike]
  cases hmin : extractStr min with
  | error r => simp
  | ok a =>
    cases hmax : extractStr max with
    | error r => simp
    | ok b =>
      cases hcount : extractUsize count with
      | error r => simp
      | ok n =>
        simp only [ok_bind]
        -- the ids are all that is left to refuse once the key and the group are read
        have hids (r : PyErr) (hr : r = .typeError ∨ r = .overflowError) (key group : Bytes) :
            (do
              let min ← parseMin a
              let max ← parseMax b
              .ok (Act.xpendingRange e key group min max n (extractSoft extractBytes consumername)
                (extractSoft extractU64 idle)) : Except PyErr (Act S)).Raises r ↔
              r = .typeError ∧ False :=
          raises_of_only_valueError (only_bind (only_parseMin a) fun _ =>
            only_bind (only_parseMax b) fun _ => only_ok _) hr
        cases hi : extractOption extractU64 idle with
        | error r =>
          have hr := hidle r hi
          rw [error_bind, perform_error, perform_eq_error_iff ?_ (ne_responseError hr),
            raises_typeError_bind hname fun _ => raises_typeError_bind hgroup fun _ => hids r hr _ _]
          · simp [refuses_seqRight]
          · exact serves_bind fun _ => serves_bind fun _ => serves_bind fun _ =>
              serves_bind fun _ => serves_ok Act.onData_served
        | ok i =>
          cases hn : extractBytes name with
          | error r => simp
          | ok key =>
            cases hg : extractBytes groupname with
            | error r => simp
            | ok group =>
              cases hcons : extractOption extractBytes consumername with
              | ok consumer =>
                rw [extractSoft_of_ok hi, extractSoft_of_ok hcons]
                simp
              | error r =>
                rw [hcons, only_error] at hconsumer
                simp only [ok_bind, error_bind, perform_error]
                rw [hconsumer, perform_eq_error_iff ?_ (by decide), hids _ (.inl rfl)]
                · simp
                · exact serves_bind fun _ => serves_bind fun _ => serves_ok Act.onData_served

/-- The fast path drops IDLE, TIME and RETRYCOUNT that cannot be read. -/
theorem agree_xclaim (name groupname consumername minIdleTime messageIds idle time retrycount force
    justid : PyValue S) :
    Agree e L c (.xclaim name groupname consumername minIdleTime messageIds idle time retrycount
        force justid) ↔
      Queued.Alike e c (.xclaim name groupname consumername minIdleTime messageIds idle time
        retrycount force justid) := by
  have hname := only_extractBytes name
  have hgroup := only_extractBytes groupname
  have hconsumer := only_extractBytes consumername
  have hforce := only_extractBool force
  have hjustid := only_extractBool justid
  have hidle := numeric_extractOption numeric_extractU64 idle
  have htime := numeric_extractOption numeric_extractU64 time
  have hretry := numeric_extractOption numeric_extractU64 retrycount
  simp only [Agree, dispatchPipelineCommand, clientMethod, Queued.Alike]
  cases hmin : extractU64 minIdleTime with
  | error r => simp
  | ok minIdle =>
    -- with an option refused, the fast path has to raise the same class by itself
    have hrefused (r : PyErr) (hr : r = .typeError ∨ r = .overflowError) :
        perform (do
          let key ← extractBytes name
          let group ← extractBytes groupname
          let consumer ← extractBytes consumername
          let force ← extractBool force
          let justid ← extractBool justid
          let ids ← extractSequence messageIds
          let ids ← extractIds ids
          .ok (Act.xclaim e key group consumer minIdle ids
            ⟨extractSoft extractU64 idle, extractSoft extractU64 retrycount, force, justid⟩)) c =
            (c, .error r) ↔
          (extractBytes name *> extractBytes groupname *> extractBytes consumername *>
            extractBool force *> extractBool justid *>
              (extractSequence messageIds >>= extractIds)).Raises r := by
      rw [perform_eq_error_iff ?_ (ne_responseError hr)]
      · simp only [seqRight_assoc]
        refine raises_bind_iff fun _ => raises_bind_iff fun _ => raises_bind_iff fun _ =>
          raises_bind_iff fun _ => raises_bind_iff fun _ => ?_
        cases extractSequence messageIds with
        | error r' => simp
        | ok ids =>
          rw [ok_bind, ok_bind]
          cases extractIds ids with
          | error r' => simp
          | ok ids => simp
      · exact serves_bind fun _ => serves_bind fun _ => serves_bind fun _ => serves_bind fun _ =>
          serves_bind fun _ => serves_bind fun _ => serves_bind fun _ =>
            serves_ok Act.onData_served
    cases hi : extractOption extractU64 idle with
    | error r =>
      simp only [ok_bind, error_bind, perform_error]
      rw [hrefused r (hidle r hi)]
      simp
    | ok i =>
      cases ht : extractOption extractU64 time with
      | error r =>
        simp only [ok_bind, error_bind, perform_error]
        rw [hrefused r (htime r ht)]
        simp
      | ok t =>
        cases hc : extractOption extractU64 retrycount with
        | error r =>
          simp only [ok_bind, error_bind, perform_error]
          rw [hrefused r (hretry r hc)]
          simp
        | ok n =>
          rw [extractSoft_of_ok hi, extractSoft_of_ok hc]
          simp only [ok_bind]
          rw [bind_congr fun _ => bind_congr fun _ => bind_rotate hconsumer hforce hjustid _,
            bind_congr fun _ => bind_rotate hgroup hforce hjustid _, bind_rotate hname hforce hjustid]
          simp

end Agreement

end Pipeline

end BurnerRedis

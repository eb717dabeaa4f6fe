/-
  What the steps of the zone service keep: whatever each of their calls keeps.
-/
import TangraDns.Prog.Spec
import TangraDns.Zones

namespace TangraDns.Zones

open Str Prog Prog.Failing

variable {C : Config} {U : CaseTables} {S : Type} {R : Steps Op Res S} {I : S → Prop}

section Forwards

variable (hr : ∀ c, Keeps R I (Act.recursor c)) (name : Str)

include hr

theorem keeps_syncForward : Keeps R I (syncForward C name) := by
  unfold syncForward
  split
  · exact keeps_pure
  · refine Keeps.bind (Keeps.attempt ?_) fun _ => keeps_pure
    unfold Recursor.syncForward
    refine Keeps.ite keeps_pure ?_
    split
    · exact keeps_throw
    · refine Keeps.bind ?_ fun _ => (hr _).attempt.bind fun _ => hr _
      unfold Recursor.target
      split
      · exact keeps_pure
      · refine (hr _).bind fun addrs => ?_
        split
        · exact keeps_pure
        · split
          exacts [keeps_pure, keeps_throw]

theorem keeps_recursor_removeForward (c : Recursor.Config) :
    Keeps R I (Recursor.removeForward U c name) := by
  unfold Recursor.removeForward
  refine Keeps.ite keeps_pure ?_
  split
  · exact keeps_throw
  · exact (hr _).catch (fun _ => keeps_pure) fun _ => Keeps.ite keeps_pure keeps_throw

theorem keeps_removeForward : Keeps R I (removeForward C name) := by
  unfold removeForward
  split
  · exact keeps_pure
  · exact (keeps_recursor_removeForward hr name _).attempt.bind fun _ => keeps_pure

end Forwards

namespace Impl

variable {z : Store.Zone}

theorem keeps_prepare (hid : Keeps R I Act.newID) (subj : Subjects) (i : CreateInput) :
    Keeps R I (prepare C subj i) := by
  refine keeps_ofExcept.bind fun _ => hid.bind fun _ => keeps_ofExcept.bind fun _ => ?_
  exact keeps_ofExcept.bind fun _ => keeps_ofExcept.bind fun _ =>
    keeps_ofExcept.bind fun _ => keeps_pure

theorem keeps_initialSets (hs : Keeps R I (Act.store (.getTemplate z.tenantID z.templateID)))
    (rrsets : List PDNS.RRset) : Keeps R I (initialSets C z rrsets) := by
  unfold initialSets
  refine Keeps.ite keeps_pure (Keeps.ite keeps_throw ?_)
  split
  · exact keeps_throw
  · exact Keeps.bind (hs.catch (fun _ => keeps_ofExcept) fun _ => keeps_throw) fun _ => keeps_pure

theorem keeps_free {T name : Str} (hname : Keeps R I (Act.store (.getZoneByName T name)))
    (hconflict : Keeps R I (Act.store (.zoneConflict T name)))
    (hget : Keeps R I (Act.pdns (.getZone name))) :
    Keeps R I (free T name) := by
  refine hname.catch (fun _ => keeps_throw) fun e =>
    Keeps.ite keeps_throw (hconflict.bind fun taken => ?_)
  exact Keeps.ite keeps_throw (hget.catch (fun _ => keeps_throw) fun _ =>
    Keeps.ite keeps_throw keeps_pure)

theorem keeps_insert (hnow : Keeps R I Act.now)
    (hdelete : Keeps R I (Act.pdns (.deleteZone z.pdnsID)))
    (hcreate : ∀ now, Keeps R I (Act.store
      (.createZone { z with createdAt := now, updatedAt := now }))) :
    Keeps R I (insert z) :=
  hnow.bind fun now => (hcreate now).catch (fun _ => keeps_pure) fun _ =>
    hdelete.attempt.bind fun _ => Keeps.ite keeps_throw keeps_throw

theorem keeps_make (hcreate : ∀ p, Keeps R I (Act.pdns (.createZone p)))
    (hinsert : ∀ id, Keeps R I (insert { z with pdnsID := id })) (rrsets : List PDNS.RRset) :
    Keeps R I (make C z rrsets) :=
  (hcreate _).catch (fun _ => hinsert _) fun _ => Keeps.ite keeps_throw keeps_throw

theorem keeps_owned (subj : Subjects) {id : Str}
    (hs : Keeps R I (Act.store (.getZone subj.tenantID id))) :
    Keeps R I (owned subj id) :=
  hs.catch (fun _ => keeps_pure) fun _ => keeps_throw

theorem keeps_delete (hdrop : Keeps R I (Act.pdns (.deleteZone z.pdnsID)))
    (hr : ∀ c, Keeps R I (Act.recursor c))
    (hclear : Keeps R I (Act.store (.clearSyncZone z.tenantID z.id)))
    (hdelete : Keeps R I (Act.store (.deleteZone z.tenantID z.id))) : Keeps R I (delete C z) := by
  refine Keeps.bind (hdrop.catch (fun _ => keeps_pure) fun _ => Keeps.ite keeps_pure keeps_throw)
    fun _ => ?_
  exact (keeps_removeForward hr _).bind fun _ => hclear.bind fun _ => hdelete

end Impl

end TangraDns.Zones

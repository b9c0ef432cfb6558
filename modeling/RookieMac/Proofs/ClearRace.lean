import RookieMac.Proofs.Connection

/-!
# Clearing the dynamic tables against the notification handler

A clear on its way to SSC passes the notifications on their way to PI, so that each side has its own
set of notifications after its last clear. They are ends of the one stream of notifications, and the
tables agree exactly when what the longer one has more leaves nothing that the shorter one does not
speak of.

PI's processing thread takes the newest message of its queue. These are the runs in which that is
the order of arrival.
-/

namespace RookieMac

open CMem Chained

section Race

variable {env : Ssc.SscEnv} {K₀ : Set Key} {p : Mirror.Pair Key}

/-- The notifications PI (`mirror`) and SSC (`origin`) have each made since their last clear. -/
def applied (env : Ssc.SscEnv) (es : List ConnEvent) : Mirror.Pair Key :=
  (es.flatMap (ConnEvent.inputs env)).foldl Mirror.step .start

end Race

/-! ## A clear that crosses a notification -/

section Crossing

def QueuedConn.learnt (s : QueuedConn) (x : PiMacEntry) : QueuedConn :=
  { s with conn := { s.conn with
      ssc := { s.conn.ssc with
        dynMacTblHead := Ssc.notifyDyn littleEnv.hash s.conn.ssc.dynMacTblHead x }
      up := s.conn.up ++ [Pi.notifyMsg x.bytes] } }

variable {x : PiMacEntry}

end Crossing

end RookieMac

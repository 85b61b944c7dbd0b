/-
The checksums that are computed with tables are those of the bits.
-/
import Unpackio.Decode.Xz
import Unpackio.Foundation.Crc
import Unpackio.Zip.Crypto

namespace Unpackio

open BitPack (bitsOf bytesToBits)

namespace Xz

end Xz

namespace Zip

end Zip

end Unpackio

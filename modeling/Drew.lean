import Drew.Mode.Gcm.RoundTrip
import Drew.Mode.Ctr
import Drew.Hash.Libmd
import Drew.Hash.Md2
import Drew.Block.SetKey
import Drew.Block.Mars.Mask
import Drew.Mode.Ofb
import Drew.Mode.Restart
import Drew.Mode.Cfb.Fast
import Drew.Mac.Cmac.Tag
import Drew.Hash.Length
import Drew.Hash.Jh
import Drew.Hash.Groestl.Stream
import Drew.Hash.Fugue
import Drew.Stream.Buffered
import Drew.Memory.ByteOrder
import Drew.Hash.Blake2b.Stream
import Drew.Hash.Fast
import Drew.Mac.Hmac.Rfc2104
import Drew.Kdf.Pbkdf2.Rfc2898
import Drew.Kdf.TlsPrf.Rfc5246
import Drew.StreamCipher.Restart
import Drew.StreamCipher.Clone
import Drew.StreamCipher.Rc4.Stream
import Drew.Ecc.Multiply
import Drew.Ecc.Negation
import Drew.Ecc.Sec
import Drew.Pksig.Clone
import Drew.Pksig.Rsa
import Drew.Pksig.Signature
import Drew.Loader.Enumerate
import Drew.Util.Password
import Drew.Mem.Bookkeeping
import Drew.Mem.Realloc
import Drew.Block.Threefish.Decrypt
import Drew.Hash.Blake.Stream
import Drew.Hash.Keccak.Complete
import Drew.Hash.Skein.Ubi
import Drew.Prng.HmacDrbg.Standard
import Drew.Prng.HashDrbg.Standard
import Drew.Prng.Arc4.Clone
import Drew.Prng.Arc4.Entropy
import Drew.Prng.Isaac
import Drew.Mode.Ctr.Resumed
import Drew.Prng.Model
import Drew.Prng.CounterDrbg.Seeding
import Drew.Prng.Seeded
import Drew.Prng.CounterDrbg.Generate
import Drew.Block.Rounds
import Drew.StreamCipher.Words
import Drew.Block.Bytes
import Drew.Block.LongBytes
import Drew.Block.Network
import Drew.Field.Byte
import Drew.Block.Camellia.Model
import Drew.Block.Camellia.Inverse
import Drew.Block.Mars.Model
import Drew.Block.Serpent.Circuits
import Drew.Block.Serpent.Model
import Drew.Block.Twofish.Model
import Drew.Block.Twofish.ReedSolomon
import Drew.Block.Twofish.Inverse
import Drew.Block.Safer.Model
import Drew.Block.Safer.Schedule
import Drew.Block.Aria.Model
import Drew.Block.Aria.Inverse
import Drew.Block.Aria.Schedule
import Drew.Block.Rijndael.Tables
import Drew.Block.Rijndael.Standard
import Drew.Block.Rijndael.Model
import Drew.Block.Rijndael.Encryption
import Drew.Block.Rijndael.Decryption
import Drew.Block.Rijndael.Schedule
import Drew.Block.Aes.Model
import Drew.Block.Aes.Expansion
import Drew.Block.Aes.Tables
import Drew.Block.Aes.Rounds
import Drew.Block.Aes.Schedule
import Drew.Block.AesNative.Model
import Drew.Block.AesNative.Fast
import Drew.Block.Fast
import Drew.Block.Recurrence
import Drew.Block.Cast.Model
import Drew.Block.Safer.Rekey
import Drew.Block.Rekeying
import Drew.Block.Feistel
import Drew.Block.FeistelCiphers
import Drew.Hash.Sha.Sha1
import Drew.Hash.Sha.Sha256
import Drew.Block.Shacal
import Drew.Block.Des.Model
import Drew.Block.Des.Triple
import Drew.Bignum.Model
import Drew.Bignum.Openssl
import Drew.Bignum.Tommath
import Drew.Mode.Gcm.Fast
import Drew.Mode.Cbc
import Drew.Stream.Match
import Drew.Util.Format
import Drew.Util.Sum
import Drew.Util.Reminder
import Drew.Hash.Digest
import Drew.Hash.Sha.Sha2
import Drew.Hash.Sha.Sha512
import Drew.Hash.Sha.SecureHash
import Drew.Field.Sine
import Drew.Hash.Md5
import Drew.Hash.Ripemd
import Drew.Field.Lookup
import Drew.Hash.Whirlpool
import Drew.Hash.Groestl.Standard

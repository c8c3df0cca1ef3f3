import QustomKeyboard.Theory.Scanner
import QustomKeyboard.Theory.Bytes
import QustomKeyboard.Theory.Cells
import QustomKeyboard.Theory.Memory
import QustomKeyboard.Theory.Machine
import QustomKeyboard.Theory.Log
import QustomKeyboard.Theory.Loop
import QustomKeyboard.Theory.InputStream
import QustomKeyboard.Theory.Exits
import QustomKeyboard.Theory.LexicalPath
import QustomKeyboard.Theory.CircularBuffer
import QustomKeyboard.Theory.OrderedSet
import QustomKeyboard.Theory.Lexicographic
import QustomKeyboard.Theory.Recent
import QustomKeyboard.Theory.Replace
import QustomKeyboard.Theory.Scanf
import QustomKeyboard.Theory.Selection
import QustomKeyboard.Theory.TextFile
import QustomKeyboard.Theory.Pieces
import QustomKeyboard.Theory.Split
import QustomKeyboard.Theory.Integral
import QustomKeyboard.Theory.Hexadecimal
import QustomKeyboard.Theory.BitArray
import QustomKeyboard.Theory.MerkleDamgard
import QustomKeyboard.Theory.Table
import QustomKeyboard.Theory.Cursor
import QustomKeyboard.Can.UartCanData
import QustomKeyboard.Can.Receiver
import QustomKeyboard.Can.Chunking
import QustomKeyboard.Can.Resync
import QustomKeyboard.Can.Sender
import QustomKeyboard.Can.Decoding
import QustomKeyboard.Can.TxQueue
import QustomKeyboard.Can.Worker
import QustomKeyboard.Can.UdsRaw
import QustomKeyboard.Can.Leak
import QustomKeyboard.Can.DidGrid
import QustomKeyboard.Can.DidRows
import QustomKeyboard.Can.Bitfield
import QustomKeyboard.Can.BitfieldValue
import QustomKeyboard.Can.BitEditor
import QustomKeyboard.Can.DidHandler
import QustomKeyboard.Can.RxGrid
import QustomKeyboard.Can.LogPanel
import QustomKeyboard.Tcp.Session
import QustomKeyboard.Tcp.Ordering
import QustomKeyboard.Tcp.Conservation
import QustomKeyboard.Tcp.Closing
import QustomKeyboard.Tcp.Server
import QustomKeyboard.Tcp.Zombie
import QustomKeyboard.Tcp.Receive
import QustomKeyboard.Backup.DirectoryBackup
import QustomKeyboard.Backup.Rotation
import QustomKeyboard.Backup.Failure
import QustomKeyboard.Backup.Retained
import QustomKeyboard.Backup.Spared
import QustomKeyboard.Backup.Recent
import QustomKeyboard.Backup.Room
import QustomKeyboard.Backup.Sha256
import QustomKeyboard.Backup.Hashing
import QustomKeyboard.Backup.Tree
import QustomKeyboard.Backup.Copying
import QustomKeyboard.Backup.Copies
import QustomKeyboard.Backup.Filtered
import QustomKeyboard.Backup.Symlinks
import QustomKeyboard.Backup.Digest
import QustomKeyboard.Text.StringEscaper
import QustomKeyboard.Text.Continuation
import QustomKeyboard.Text.Separate
import QustomKeyboard.Text.Stoi
import QustomKeyboard.Screenshot.Bitmap
import QustomKeyboard.Screenshot.Decoding
import QustomKeyboard.Screenshot.Bounds
import QustomKeyboard.Screenshot.PixelOffset
import QustomKeyboard.Log.Logger
import QustomKeyboard.Log.Search
import QustomKeyboard.Map.Vehicle
import QustomKeyboard.Services.AntiLock
import QustomKeyboard.Services.Settings
import QustomKeyboard.Services.SerialPort
import QustomKeyboard.Services.CryptoPrice
